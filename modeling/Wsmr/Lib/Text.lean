import Mathlib.Algebra.Group.Nat.Defs
import Mathlib.Data.List.Basic
import Mathlib.Data.List.TakeWhile

/-!
# Text as a list of characters

A string is the list of its characters (Unicode scalar values, as in the source's UTF-8 strings).
The functions are the splitting and trimming operations line- and record-oriented formats are
read with; the lemmas say that such a format is read back as it was written.

* `splitOnce c s` — cut at the first `c`.
* `lines s` — the lines of `s`: a `\n` ends a line and takes one `\r` before it along, a last
  line without `\n` counts as it stands, an empty rest does not count.
* `trim s` — without leading and trailing Unicode white space.
-/

namespace Text

abbrev Str := List Char

/-- For lists of literals: each has its characters beside it, and need not be decoded. -/
theorem forall_cons_ofList {P : Str → Prop} {l : Str} {ls : List String} (h : P l) (hs : ∀ s ∈ ls, P s.toList) :
    ∀ s ∈ String.ofList l :: ls, P s.toList := by
  rw [List.forall_mem_cons, String.toList_ofList]
  exact ⟨h, hs⟩

/-- A property of the characters of a text, decided by going through it. -/
theorem forall_mem_of_all {p : Char → Prop} [DecidablePred p] {s : Str} (h : s.all (fun c => decide (p c)) = true) :
    ∀ c ∈ s, p c := fun c hc => of_decide_eq_true (List.all_eq_true.1 h c hc)

/-- Cut `s` at its first `c`. -/
def splitOnce (c : Char) : Str → Option (Str × Str)
  | [] => none
  | x :: xs => if x = c then some ([], xs) else (splitOnce c xs).map fun p => (x :: p.1, p.2)

theorem splitOnce_append {c : Char} : ∀ {k : Str} (v : Str), c ∉ k →
    splitOnce c (k ++ c :: v) = some (k, v)
  | [], v, _ => by simp [splitOnce]
  | x :: k, v, hk => by
    simp only [List.mem_cons, not_or] at hk
    simp [splitOnce, Ne.symm hk.1, splitOnce_append v hk.2]

theorem splitOnce_eq_none {c : Char} : ∀ {s : Str}, c ∉ s → splitOnce c s = none
  | [], _ => rfl
  | x :: xs, h => by
    simp only [List.mem_cons, not_or] at h
    simp [splitOnce, Ne.symm h.1, splitOnce_eq_none h.2]

theorem splitOnce_eq_some {c : Char} : ∀ {s k v : Str}, splitOnce c s = some (k, v) →
    s = k ++ c :: v ∧ c ∉ k
  | [], _, _, h => by simp [splitOnce] at h
  | x :: xs, k, v, h => by
    by_cases hx : x = c
    · simp only [splitOnce, hx, ite_true, Option.some.injEq, Prod.mk.injEq] at h
      obtain ⟨rfl, rfl⟩ := h
      simp [hx]
    · simp only [splitOnce, hx, ite_false, Option.map_eq_some_iff, Prod.mk.injEq] at h
      obtain ⟨⟨k', v'⟩, h', rfl, rfl⟩ := h
      obtain ⟨rfl, hk⟩ := splitOnce_eq_some h'
      exact ⟨rfl, by simp [Ne.symm hx, hk]⟩

theorem not_mem_of_splitOnce_eq_none {c : Char} : ∀ {s : Str}, splitOnce c s = none → c ∉ s
  | [], _ => List.not_mem_nil
  | x :: xs, h => by
    by_cases hx : x = c
    · simp [splitOnce, hx] at h
    · simp only [splitOnce, hx, ite_false, Option.map_eq_none_iff] at h
      simp [Ne.symm hx, not_mem_of_splitOnce_eq_none h]

/-! ## Lines -/

/-- Drop one trailing carriage return. -/
def stripCr (s : Str) : Str := if s.getLast? = some '\r' then s.dropLast else s

/-- The lines among the pieces between the `\n`s; the last piece has no `\n` after it. -/
def linesOf : List Str → List Str
  | [] => []
  | [p] => if p = [] then [] else [p]
  | p :: q :: ps => stripCr p :: linesOf (q :: ps)

def lines (s : Str) : List Str := linesOf (s.splitOn '\n')

/-- Every line followed by `\n`. -/
def unlines (ls : List Str) : Str := ls.flatMap (· ++ ['\n'])

theorem stripCr_append_cr (s : Str) : stripCr (s ++ ['\r']) = s := by
  simp [stripCr]

/-- What `stripCr` maps to `s`: `s` itself, or `s` with a carriage return. -/
theorem stripCr_eq_iff {s t : Str} :
    stripCr t = s ↔ t = s ++ ['\r'] ∨ (t = s ∧ t.getLast? ≠ some '\r') := by
  by_cases h : t.getLast? = some '\r'
  · obtain ⟨u, rfl⟩ := List.getLast?_eq_some_iff.1 h
    simp [stripCr]
  · simp only [stripCr, h, ite_false, ne_eq, not_false_eq_true, and_true]
    refine ⟨Or.inr, fun hs => hs.elim (fun e => ?_) id⟩
    subst e
    simp at h

theorem splitOn_line {l : Str} (h : '\n' ∉ l) (s : Str) :
    (l ++ '\n' :: s).splitOn '\n' = l :: s.splitOn '\n' :=
  List.splitOn_append_cons_self_of_not_mem h s

theorem lines_line {l : Str} (h : '\n' ∉ l) (s : Str) :
    lines (l ++ '\n' :: s) = stripCr l :: lines s := by
  unfold lines
  rw [splitOn_line h]
  cases hs : s.splitOn '\n' with
  | nil => exact absurd hs (List.splitOn_ne_nil _ _)
  | cons p ps => rfl

theorem lines_nil : lines [] = [] := rfl

theorem lines_unlines_append : ∀ {ls : List Str} (s : Str), (∀ l ∈ ls, '\n' ∉ l) →
    lines (unlines ls ++ s) = ls.map stripCr ++ lines s
  | [], _, _ => rfl
  | l :: ls, s, h => by
    simp only [List.forall_mem_cons] at h
    have ih := lines_unlines_append s h.2
    simp only [unlines, List.flatMap_cons, List.append_assoc, List.map_cons, List.cons_append,
      List.nil_append] at ih ⊢
    rw [lines_line h.1, ih]

theorem lines_unlines {ls : List Str} (h : ∀ l ∈ ls, '\n' ∉ l) :
    lines (unlines ls) = ls.map stripCr := by
  simpa [lines_nil] using lines_unlines_append [] h

theorem mem_linesOf {l : Str} : ∀ {ps : List Str}, l ∈ linesOf ps → ∃ p ∈ ps, l = p ∨ l = stripCr p
  | [], h => by simp [linesOf] at h
  | [p], h => by
    by_cases hp : p = [] <;> simp [linesOf, hp] at h
    exact ⟨p, by simp, Or.inl h⟩
  | p :: q :: ps, h => by
    simp only [linesOf, List.mem_cons] at h
    rcases h with rfl | h
    · exact ⟨p, by simp, Or.inr rfl⟩
    · obtain ⟨p', hp', he⟩ := mem_linesOf h
      exact ⟨p', by simp only [List.mem_cons] at hp' ⊢; tauto, he⟩

theorem not_mem_of_mem_splitOn {c : Char} : ∀ {s p : Str}, p ∈ s.splitOn c → c ∉ p
  | [], p, h => by simp [List.splitOn_nil] at h; simp [h]
  | x :: xs, p, h => by
    rw [List.splitOn_cons_eq_if_modifyHead] at h
    cases hs : xs.splitOn c with
    | nil => exact absurd hs (List.splitOn_ne_nil _ _)
    | cons q qs =>
      have ih : ∀ p' ∈ q :: qs, c ∉ p' := fun p' hp' => not_mem_of_mem_splitOn (hs ▸ hp')
      by_cases hx : x = c
      · simp only [hx, beq_self_eq_true, ite_true, hs, List.mem_cons] at h
        rcases h with rfl | h
        · simp
        · exact ih p (by simpa using h)
      · simp only [beq_iff_eq, hx, ite_false, hs, List.modifyHead_cons, List.mem_cons] at h
        rcases h with rfl | h
        · have := ih q (by simp)
          simp [Ne.symm hx, this]
        · exact ih p (by simp [h])

/-- Pieces with a `c` after each are read back when there is no `c` in them. -/
theorem splitOn_terminated {c : Char} : ∀ {ls : List Str}, (∀ l ∈ ls, c ∉ l) →
    (ls.flatMap (· ++ [c])).splitOn c = ls ++ [[]]
  | [], _ => rfl
  | l :: ls, h => by
    rw [List.forall_mem_cons] at h
    have hsplit := List.splitOn_append_cons_self_of_not_mem h.1 (ls.flatMap (· ++ [c]))
    rw [splitOn_terminated h.2] at hsplit
    simpa using hsplit

theorem splitOn_terminated_iff {c : Char} {ls : List Str} :
    (ls.flatMap (· ++ [c])).splitOn c = ls ++ [[]] ↔ ∀ l ∈ ls, c ∉ l := by
  refine ⟨fun h l hl => ?_, splitOn_terminated⟩
  exact not_mem_of_mem_splitOn (h ▸ List.mem_append_left _ hl)

/-- No line of a text contains a `\n`. -/
theorem newline_not_mem_line {s l : Str} (h : l ∈ lines s) : '\n' ∉ l := by
  obtain ⟨p, hp, rfl | rfl⟩ := mem_linesOf h
  · exact not_mem_of_mem_splitOn hp
  · intro hm
    have hsub : '\n' ∈ p := by
      unfold stripCr at hm
      split at hm
      · exact List.dropLast_subset _ hm
      · exact hm
    exact not_mem_of_mem_splitOn hp hsub

/-! ## White space -/

/-- Unicode `White_Space`. -/
def isWhitespace (c : Char) : Bool :=
  (9 ≤ c.toNat && c.toNat ≤ 13) || (8192 ≤ c.toNat && c.toNat ≤ 8202) ||
    [32, 133, 160, 5760, 8232, 8233, 8239, 8287, 12288].contains c.toNat

def trimStart (s : Str) : Str := s.dropWhile isWhitespace
def trimEnd (s : Str) : Str := (s.reverse.dropWhile isWhitespace).reverse
def trim (s : Str) : Str := trimEnd (trimStart s)

theorem dropWhile_eq_of_head {p : Char → Bool} {s : Str} (h : ∀ c ∈ s.head?, p c = false) : s.dropWhile p = s := by
  cases s with
  | nil => rfl
  | cons c s => rw [List.dropWhile_cons_of_neg (by simp [h c rfl])]

theorem head?_dropWhile {p : Char → Bool} (s : Str) : ∀ c ∈ (s.dropWhile p).head?, p c = false := by
  intro c hc
  have h := List.head?_dropWhile_not p s
  rwa [Option.mem_def.1 hc] at h

theorem trim_eq_of_ends {s : Str} (hhead : ∀ c ∈ s.head?, isWhitespace c = false)
    (hlast : ∀ c ∈ s.getLast?, isWhitespace c = false) : trim s = s := by
  have hstart : trimStart s = s := dropWhile_eq_of_head hhead
  have hend : s.reverse.dropWhile isWhitespace = s.reverse :=
    dropWhile_eq_of_head (by rwa [List.head?_reverse])
  rw [trim, hstart, trimEnd, hend, List.reverse_reverse]

theorem trim_eq_self {s : Str} (h : ∀ c ∈ s, isWhitespace c = false) : trim s = s :=
  trim_eq_of_ends (fun c hc => h c (List.mem_of_mem_head? hc)) fun c hc => h c (List.mem_of_mem_getLast? hc)

theorem trim_of_no_whitespace {s : Str} (h : ∀ c ∈ s, isWhitespace c = false) :
    trim (s ++ ['\n']) = s := by
  by_cases hs : s = []
  · subst hs; decide
  · have hstart : trimStart (s ++ ['\n']) = s ++ ['\n'] := by
      refine dropWhile_eq_of_head fun c hc => h c (List.mem_of_mem_head? ?_)
      rwa [List.head?_append_of_ne_nil _ hs] at hc
    have hself := trim_eq_self h
    rw [trim, trimStart, dropWhile_eq_of_head fun c hc => h c (List.mem_of_mem_head? hc), trimEnd] at hself
    have hn : isWhitespace '\n' = true := by decide
    simp [trim, hstart, trimEnd, hn, hself]

theorem trimEnd_prefix (s : Str) : trimEnd s <+: s := by
  have h := (List.dropWhile_suffix isWhitespace (l := s.reverse)).reverse
  rwa [List.reverse_reverse] at h

/-- A trimmed text does not start with white space. -/
theorem head?_trim (s : Str) : ∀ c ∈ (trim s).head?, isWhitespace c = false := by
  intro c hc
  obtain ⟨t, ht⟩ := trimEnd_prefix (trimStart s)
  refine head?_dropWhile s c ?_
  show (trimStart s).head? = some c
  rw [← ht, List.head?_append_of_ne_nil _ (by rintro hnil; rw [trim, hnil] at hc; cases hc)]
  exact hc

/-- `trim_end_matches` -/
def trimEndMatches (c : Char) (s : Str) : Str := (s.reverse.dropWhile (· == c)).reverse

theorem exists_trimEndMatches_append (c : Char) (s : Str) : ∃ n, s = trimEndMatches c s ++ List.replicate n c := by
  have hsplit := s.reverse.takeWhile_append_dropWhile (p := (· == c))
  have hend : s.reverse.takeWhile (· == c) = List.replicate (s.reverse.takeWhile (· == c)).length c :=
    List.eq_replicate_of_mem fun x hx => by simpa using List.mem_takeWhile_imp hx
  refine ⟨(s.reverse.takeWhile (· == c)).length, ?_⟩
  rw [trimEndMatches, ← List.reverse_replicate, ← hend, ← List.reverse_append, hsplit, List.reverse_reverse]

/-! ## Prefixes and suffixes -/

/-- What stands before and after the first occurrence of `sep`. -/
def splitFirst (sep : Str) : Str → Option (Str × Str)
  | [] => if sep = [] then some ([], []) else none
  | c :: s =>
    if sep <+: c :: s then some ([], (c :: s).drop sep.length)
    else (splitFirst sep s).map fun p => (c :: p.1, p.2)

theorem isSome_splitFirst {sep : Str} (hsep : sep ≠ []) : ∀ {s : Str},
    (splitFirst sep s).isSome = true ↔ sep <:+: s
  | [] => by simp [splitFirst, hsep]
  | c :: s => by
    rw [splitFirst, List.infix_cons_iff]
    by_cases h : sep <+: c :: s
    · simp [h]
    · simp [h, isSome_splitFirst hsep]

/-- A first occurrence, that no shorter text before it has. -/
theorem splitFirst_append {sep : Str} (hsep : sep ≠ []) (after : Str) : ∀ {before : Str},
    (∀ p s, before ++ sep = p ++ sep ++ s → before.length ≤ p.length) →
    splitFirst sep (before ++ sep ++ after) = some (before, after)
  | [], _ => by
    obtain ⟨c, t, rfl⟩ := List.exists_cons_of_ne_nil hsep
    rw [List.nil_append, List.cons_append, splitFirst, ← List.cons_append, if_pos (List.prefix_append _ _),
      List.drop_left]
  | c :: before, h => by
    have hnot : ¬ sep <+: c :: before ++ sep ++ after := fun hp => by
      have hwithin : sep <+: c :: before ++ sep :=
        List.prefix_of_prefix_length_le hp (List.prefix_append _ _) (by simp; omega)
      obtain ⟨t, ht⟩ := hwithin
      exact absurd (h [] t ht.symm) (Nat.not_succ_le_zero _)
    have hrest : ∀ p s, before ++ sep = p ++ sep ++ s → before.length ≤ p.length := fun p s heq =>
      Nat.le_of_succ_le_succ (h (c :: p) s (congrArg (List.cons c) heq))
    rw [List.cons_append, List.cons_append] at hnot ⊢
    rw [splitFirst, if_neg hnot, splitFirst_append hsep after hrest]
    rfl

/-- `strip_prefix` -/
def stripPrefix (p s : Str) : Option Str := if p <+: s then some (s.drop p.length) else none

/-- `strip_suffix` -/
def stripSuffix (p s : Str) : Option Str :=
  if p <:+ s then some (s.take (s.length - p.length)) else none

theorem stripPrefix_eq_some {p s t : Str} : stripPrefix p s = some t ↔ s = p ++ t := by
  unfold stripPrefix
  constructor
  · intro h
    split at h
    · rename_i hp
      obtain ⟨u, rfl⟩ := hp
      simpa [eq_comm] using h
    · cases h
  · rintro rfl
    simp

theorem stripPrefix_singleton {c x : Char} {s : Str} : stripPrefix [c] (x :: s) = if x = c then some s else none := by
  unfold stripPrefix
  by_cases h : x = c
  · simp [h]
  · simp [h, Ne.symm h]

theorem stripPrefix_append (p s : Str) : stripPrefix p (p ++ s) = some s := by
  simp [stripPrefix]

theorem stripSuffix_append (s p : Str) : stripSuffix p (s ++ p) = some s := by
  simp [stripSuffix]

/-! ## Numbers -/

def digitVal (radix : Nat) (c : Char) : Option Nat :=
  let d :=
    if '0' ≤ c ∧ c ≤ '9' then c.toNat - 48
    else if 'a' ≤ c ∧ c ≤ 'z' then c.toNat - 87
    else if 'A' ≤ c ∧ c ≤ 'Z' then c.toNat - 55
    else radix
  if d < radix then some d else none

def pushDigit (radix bound n : Nat) (c : Char) : Option Nat := do
  let d ← digitVal radix c
  if n * radix + d < bound then some (n * radix + d) else none

/-- `from_str_radix` on an unsigned type with `bound` values: one leading `+` is accepted. -/
def parseUnsigned (radix bound : Nat) (s : Str) : Option Nat :=
  let digits := match s with
    | '+' :: rest => rest
    | _ => s
  if digits = [] then none else digits.foldlM (pushDigit radix bound) 0

theorem parseUnsigned_of_not_mem {radix bound : Nat} {s : Str} (hplus : '+' ∉ s) (hne : s ≠ []) :
    parseUnsigned radix bound s = s.foldlM (pushDigit radix bound) 0 := by
  unfold parseUnsigned
  dsimp only
  split
  · exact absurd List.mem_cons_self hplus
  · rw [if_neg hne]

/-- Decimal digits. -/
def decimal (n : Nat) : Str := Nat.toDigits 10 n

theorem not_mem_decimal {c : Char} (h : c.isDigit = false) (n : Nat) : c ∉ decimal n := fun hc => by
  have hdigit := Nat.isDigit_of_mem_toDigits (by decide) (by decide) hc
  rw [h] at hdigit
  cases hdigit

theorem digitVal_digitChar : ∀ d < 10, digitVal 10 d.digitChar = some d := by decide

theorem of_pushDigit {radix bound n k d : Nat} {c : Char} (hc : digitVal radix c = some d)
    (h : pushDigit radix bound n c = some k) : k = n * radix + d := by
  simp only [pushDigit, hc, Option.bind_eq_bind, Option.bind_some] at h
  split at h
  · exact (Option.some.inj h).symm
  · cases h

theorem of_foldlM_decimal {bound : Nat} (n : Nat) : ∀ {k : Nat},
    (decimal n).foldlM (pushDigit 10 bound) 0 = some k → k = n := by
  induction n using Nat.strongRecOn with
  | _ n ih =>
    intro k h
    rw [decimal, Nat.toDigits_eq_if (by decide)] at h
    split at h
    · rename_i hlt
      simp only [List.foldlM_cons, List.foldlM_nil, bind_pure] at h
      have hk := of_pushDigit (digitVal_digitChar n hlt) h
      omega
    · rename_i hge
      rw [List.foldlM_append] at h
      obtain ⟨m, hm, hlast⟩ := Option.bind_eq_some_iff.1 h
      simp only [List.foldlM_cons, List.foldlM_nil, bind_pure] at hlast
      have hk := of_pushDigit (digitVal_digitChar _ (Nat.mod_lt n (by decide))) hlast
      have hdiv : m = n / 10 := ih (n / 10) (by omega) hm
      omega

/-- **Decimal round trip.** -/
theorem of_parseUnsigned_decimal {bound n k : Nat} (h : parseUnsigned 10 bound (decimal n) = some k) : k = n := by
  have hplus : '+' ∉ decimal n := not_mem_decimal (by decide) n
  have hne : decimal n ≠ [] := Nat.toDigits_ne_nil
  rw [parseUnsigned_of_not_mem hplus hne] at h
  exact of_foldlM_decimal n h

theorem digitVal_of_foldlM {radix bound : Nat} : ∀ {s : Str} {n k : Nat},
    s.foldlM (pushDigit radix bound) n = some k → ∀ c ∈ s, ∃ d, digitVal radix c = some d
  | [], _, _, _ => fun _ hc => by cases hc
  | c :: s, n, k, h => by
    rw [List.foldlM_cons] at h
    obtain ⟨m, hm, hrest⟩ := Option.bind_eq_some_iff.1 h
    obtain ⟨d, hd, -⟩ := Option.bind_eq_some_iff.1 hm
    exact List.forall_mem_cons.2 ⟨⟨d, hd⟩, digitVal_of_foldlM hrest⟩

/-- A number is digits, maybe behind a `+`. -/
theorem digits_of_parseUnsigned {radix bound k : Nat} {s : Str} (h : parseUnsigned radix bound s = some k) :
    ∃ digits, (s = digits ∨ s = '+' :: digits) ∧ digits ≠ [] ∧ ∀ c ∈ digits, ∃ d, digitVal radix c = some d := by
  have hread : ∀ {digits : Str}, (if digits = [] then none else digits.foldlM (pushDigit radix bound) 0) = some k →
      digits ≠ [] ∧ ∀ c ∈ digits, ∃ d, digitVal radix c = some d := fun h => by
    split at h
    · cases h
    · rename_i hne
      exact ⟨hne, digitVal_of_foldlM h⟩
  unfold parseUnsigned at h
  dsimp only at h
  split at h
  · exact ⟨_, Or.inr rfl, hread h⟩
  · exact ⟨_, Or.inl rfl, hread h⟩

/-! ## Hexadecimal -/

def hexDigit (n : Nat) : Char := if n < 10 then Char.ofNat (48 + n) else Char.ofNat (87 + n)

/-- `{b:02x}` -/
def hexByte (b : UInt8) : Str := [hexDigit (b.toNat / 16), hexDigit (b.toNat % 16)]

/-- The last `w` hexadecimal digits of `n`. -/
def hexPadded : Nat → Nat → Str
  | 0, _ => []
  | w + 1, n => hexPadded w (n / 16) ++ [hexDigit (n % 16)]

theorem hexDigit_of_digitVal {c : Char} {d : Nat} (h : digitVal 16 c = some d) :
    '0' ≤ c ∧ c ≤ '9' ∨ 'a' ≤ c ∧ c ≤ 'f' ∨ 'A' ≤ c ∧ c ≤ 'F' := by
  have hle : ∀ a b : Char, a ≤ b ↔ a.toNat ≤ b.toNat := fun _ _ => Iff.rfl
  have hf : 'f'.toNat = 102 := rfl
  have hF : 'F'.toNat = 70 := rfl
  unfold digitVal at h
  dsimp only at h
  split at h
  · exact Or.inl ‹_›
  split at h
  · rename_i hc
    split at h
    · exact Or.inr (Or.inl ⟨hc.1, (hle _ _).2 (by omega)⟩)
    · cases h
  split at h
  · rename_i hc
    split at h
    · exact Or.inr (Or.inr ⟨hc.1, (hle _ _).2 (by omega)⟩)
    · cases h
  · cases h

theorem digitVal_hexDigit : ∀ d < 16, digitVal 16 (hexDigit d) = some d := by decide

theorem eq_hexDigit_of_mem_hexPadded {c : Char} : ∀ {w n : Nat}, c ∈ hexPadded w n → ∃ d < 16, c = hexDigit d
  | 0, _, h => by simp [hexPadded] at h
  | w + 1, n, h => by
    rcases List.mem_append.1 h with h | h
    · exact eq_hexDigit_of_mem_hexPadded h
    · exact ⟨n % 16, Nat.mod_lt _ (by decide), by simpa using h⟩

theorem length_hexPadded : ∀ w n, (hexPadded w n).length = w
  | 0, _ => rfl
  | w + 1, n => by simp [hexPadded, length_hexPadded w]

theorem foldlM_hexPadded {bound : Nat} : ∀ {w n : Nat}, n < 16 ^ w → n < bound →
    (hexPadded w n).foldlM (pushDigit 16 bound) 0 = some n
  | 0, n, hn, _ => by
    obtain rfl : n = 0 := by simpa using hn
    rfl
  | w + 1, n, hn, hb => by
    have hdiv : n / 16 < 16 ^ w := by omega
    have hval : n / 16 * 16 + n % 16 = n := by omega
    rw [hexPadded, List.foldlM_append, foldlM_hexPadded hdiv (by omega)]
    simp [pushDigit, digitVal_hexDigit _ (Nat.mod_lt n (by decide : 16 > 0)), hval, hb]

/-- **Hexadecimal round trip.** -/
theorem parseUnsigned_hexPadded {bound w n : Nat} (hw : w ≠ 0) (hn : n < 16 ^ w) (hb : n < bound) :
    parseUnsigned 16 bound (hexPadded w n) = some n := by
  have hne : hexPadded w n ≠ [] := fun h => hw (by simpa [h] using (length_hexPadded w n).symm)
  have hplus : '+' ∉ hexPadded w n := fun h => by
    obtain ⟨d, hd, he⟩ := eq_hexDigit_of_mem_hexPadded h
    exact absurd he (by revert d; decide)
  rw [parseUnsigned_of_not_mem hplus hne]
  exact foldlM_hexPadded hn hb

/-! ## Bytes and replacement -/

def utf8 (s : Str) : List UInt8 := s.flatMap String.utf8EncodeChar

/-- `replace`, for a pattern that is not empty; `skip` characters belong to the occurrence before. -/
def replaceFrom (pat rep : Str) : Nat → Str → Str
  | _, [] => []
  | skip + 1, _ :: s => replaceFrom pat rep skip s
  | 0, c :: s =>
    if pat <+: c :: s then rep ++ replaceFrom pat rep (pat.length - 1) s else c :: replaceFrom pat rep 0 s

def replace (pat rep s : Str) : Str := replaceFrom pat rep 0 s

section
variable {pat rep : Str} {c : Char}

theorem prefix_append_cons (hc : c ∉ pat) (s t : Str) : pat <+: s ++ c :: t ↔ pat <+: s := by
  refine ⟨fun h => ?_, fun h => h.trans (List.prefix_append _ _)⟩
  by_cases hlen : pat.length ≤ s.length
  · exact List.prefix_of_prefix_length_le h (List.prefix_append _ _) hlen
  · have hsc : s ++ [c] <+: s ++ c :: t := ⟨t, by simp⟩
    have hpat : s ++ [c] <+: pat := List.prefix_of_prefix_length_le hsc h (by simp; omega)
    exact absurd (hpat.subset (by simp)) hc

/-- Occurrences of a pattern do not reach over a character that is not in it. -/
theorem replaceFrom_append (hpat : pat ≠ []) (hc : c ∉ pat) (t : Str) : ∀ {s : Str} {skip : Nat}, skip ≤ s.length →
    replaceFrom pat rep skip (s ++ c :: t) = replaceFrom pat rep skip s ++ c :: replaceFrom pat rep 0 t
  | [], skip, hskip => by
    obtain rfl := Nat.le_zero.1 hskip
    have hnot : ¬ pat <+: c :: t := fun h => hpat (List.prefix_nil.1 ((prefix_append_cons hc [] t).1 h))
    exact if_neg hnot
  | d :: s, skip + 1, hskip => by
    have ih := @replaceFrom_append hpat hc t s skip (Nat.le_of_succ_le_succ hskip)
    exact ih
  | d :: s, 0, _ => by
    have hstart := prefix_append_cons hc (d :: s) t
    rw [List.cons_append] at hstart ⊢
    by_cases h : pat <+: d :: s
    · have hlen := h.length_le
      rw [List.length_cons] at hlen
      rw [replaceFrom, if_pos (hstart.2 h), replaceFrom, if_pos h,
        replaceFrom_append hpat hc t (by omega), List.append_assoc]
    · rw [replaceFrom, if_neg (hstart.not.2 h), replaceFrom, if_neg h,
        replaceFrom_append hpat hc t (Nat.zero_le _), List.cons_append]

theorem replace_append (hpat : pat ≠ []) (hc : c ∉ pat) (s t : Str) :
    replace pat rep (s ++ c :: t) = replace pat rep s ++ c :: replace pat rep t :=
  replaceFrom_append hpat hc t (Nat.zero_le _)

theorem replaceFrom_length : ∀ {s t : Str}, replaceFrom pat rep s.length (s ++ t) = replaceFrom pat rep 0 t
  | [], _ => rfl
  | _ :: s, t => @replaceFrom_length s t

theorem replace_pattern (hpat : pat ≠ []) (t : Str) : replace pat rep (pat ++ t) = rep ++ replace pat rep t := by
  obtain ⟨c, p, rfl⟩ := List.exists_cons_of_ne_nil hpat
  rw [replace, List.cons_append, replaceFrom, if_pos ⟨t, rfl⟩, List.length_cons, Nat.add_sub_cancel,
    replaceFrom_length, replace]

/-- There is no occurrence where the pattern's first character does not occur. -/
theorem replace_eq_self {p : Str} : ∀ {s : Str}, c ∉ s → replace (c :: p) rep s = s
  | [], _ => rfl
  | d :: s, h => by
    rw [List.mem_cons, not_or] at h
    have ih := @replace_eq_self p s h.2
    have hnot : ¬ c :: p <+: d :: s := fun hp => h.1 (List.cons_prefix_cons.1 hp).1
    rw [replace, replaceFrom, if_neg hnot, ← replace, ih]

end

def splitWhitespace (s : Str) : List Str := (s.splitOnP isWhitespace).filter (· ≠ [])

end Text
