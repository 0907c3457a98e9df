import Wsmr.Lib.Text

/-!
# Command lines of a service manager

The value of an `ExecStart=`. It is split at blanks into words, in which quotes are removed and escapes
decoded (`words`), and each word is expanded in the state of the manager (`Manager.expand`). Escapes that
nobody knows, and quotes of the other kind inside of quotes, are characters like others.

A text is read as it stands when nothing in it is decoded (`EscapeFree`) or expanded (`Inert`). For the
converse, each escape and each expansion costs some `weight`.
-/

namespace ExecLine

open Text

def isBlank (c : Char) : Bool := c = ' ' || c = '\t' || c = '\n' || c = '\r'

/-! ## Escapes -/

/-- A character by its number, and how many digits that takes. -/
def number (radix digits bound : Nat) (s : Str) : Option (Char × Nat) :=
  let ds := s.take digits
  let n := ds.foldl (fun n c => n * radix + (digitVal radix c).getD 0) 0
  if ds.length = digits ∧ ds.all (fun c => (digitVal radix c).isSome) ∧ n ≠ 0 ∧ n < bound ∧ n.isValidChar then
    some (Char.ofNat n, digits)
  else none

def simpleEscapes : List (Char × Char) :=
  [('a', '\x07'), ('b', '\x08'), ('f', '\x0c'), ('n', '\n'), ('r', '\r'), ('t', '\t'), ('v', '\x0b'), ('\\', '\\'),
    ('"', '"'), ('\'', '\''), ('s', ' ')]

/-- What stands after a backslash: the character that is meant, and how many it is written with. -/
def escapeAt (s : Str) : Option (Char × Nat) :=
  match s with
  | [] => none
  | c :: t =>
    match simpleEscapes.lookup c with
    | some d => some (d, 1)
    | none =>
      if c = 'x' then (number 16 2 256 t).map fun p => (p.1, p.2 + 1)
      else if c = 'u' then (number 16 4 65536 t).map fun p => (p.1, p.2 + 1)
      else if c = 'U' then (number 16 8 1114112 t).map fun p => (p.1, p.2 + 1)
      else number 8 3 256 s

/-- Nothing after a backslash of `s` is an escape. -/
def EscapeFree (s : Str) : Prop := ∀ t ∈ s.tails, t.head? = some '\\' → escapeAt t.tail = none

instance : DecidablePred EscapeFree := fun s =>
  inferInstanceAs (Decidable (∀ t ∈ s.tails, t.head? = some '\\' → escapeAt t.tail = none))

theorem escapeFree_nil : EscapeFree [] := by
  intro t ht
  simp_all

theorem escapeFree_cons {c : Char} {s : Str} :
    EscapeFree (c :: s) ↔ (c = '\\' → escapeAt s = none) ∧ EscapeFree s := by
  simp [EscapeFree]

theorem escapeFree_of_not_mem : ∀ {s : Str}, '\\' ∉ s → EscapeFree s
  | [], _ => escapeFree_nil
  | c :: s, h => by
    rw [List.mem_cons, not_or] at h
    exact escapeFree_cons.2 ⟨fun hc => absurd hc.symm h.1, escapeFree_of_not_mem h.2⟩

theorem number_take {radix digits bound : Nat} {s : Str} {p : Char × Nat} (h : number radix digits bound s = some p) :
    p.2 = digits ∧ digits ≤ s.length ∧ ∀ c ∈ s.take digits, (digitVal radix c).isSome := by
  unfold number at h
  dsimp only at h
  split at h
  · rename_i hdigits
    obtain ⟨hlen, hall, -⟩ := hdigits
    obtain rfl := Option.some.inj h
    rw [List.length_take] at hlen
    exact ⟨rfl, by omega, List.all_eq_true.1 hall⟩
  · cases h

/-- What comes after a character that is no digit does not matter. -/
theorem number_append {radix digits bound : Nat} {stop : Char} (hstop : digitVal radix stop = none) (u v : Str) :
    number radix digits bound (u ++ stop :: v) = number radix digits bound u := by
  by_cases hlen : digits ≤ u.length
  · unfold number
    rw [List.take_append_of_le_length hlen]
  · have hnone : number radix digits bound u = none := by
      cases h : number radix digits bound u with
      | none => rfl
      | some p => exact absurd (number_take h).2.1 hlen
    rw [hnone]
    cases h : number radix digits bound (u ++ stop :: v) with
    | none => rfl
    | some p =>
      have hmem : stop ∈ (u ++ stop :: v).take digits := by
        rw [List.take_append]
        obtain ⟨n, hn⟩ : ∃ n, digits - u.length = n + 1 := ⟨digits - u.length - 1, by omega⟩
        simp [hn]
      have hsome := (number_take h).2.2 stop hmem
      rw [hstop] at hsome
      cases hsome

theorem digitVal_stop {stop : Char} (hstop : isBlank stop ∨ stop = '\'') :
    digitVal 16 stop = none ∧ digitVal 8 stop = none := by
  unfold isBlank at hstop
  simp only [Bool.or_eq_true, decide_eq_true_eq] at hstop
  rcases hstop with (((rfl | rfl) | rfl) | rfl) | rfl <;> decide

/-- An escape ends before a blank or a quote, but for that of the quote itself. -/
theorem escapeAt_append {stop : Char} (hstop : isBlank stop ∨ stop = '\'') {u : Str} (hu : u ≠ []) (v : Str) :
    escapeAt (u ++ stop :: v) = escapeAt u := by
  have hdigit := digitVal_stop hstop
  obtain ⟨c, t, rfl⟩ := List.exists_cons_of_ne_nil hu
  have hoctal := @number_append 8 3 256 stop hdigit.2 (c :: t) v
  rw [List.cons_append] at hoctal ⊢
  simp only [escapeAt, number_append hdigit.1, hoctal]

theorem escapeAt_blank {c : Char} (hc : isBlank c = true) (s : Str) : escapeAt (c :: s) = none := by
  have hoctal := @number_append 8 3 256 c (digitVal_stop (Or.inl hc)).2 [] s
  rw [List.nil_append] at hoctal
  unfold isBlank at hc
  simp only [Bool.or_eq_true, decide_eq_true_eq] at hc
  rcases hc with ((rfl | rfl) | rfl) | rfl <;> exact hoctal

theorem escapeAt_skip {s : Str} {d : Char} {skip : Nat} (h : escapeAt s = some (d, skip)) :
    1 ≤ skip ∧ skip ≤ s.length := by
  unfold escapeAt at h
  split at h
  · cases h
  rename_i c t
  split at h
  · obtain ⟨-, rfl⟩ := Prod.mk.inj (Option.some.inj h)
    simp
  have hmap : ∀ {radix digits bound : Nat},
      (number radix digits bound t).map (fun p => (p.1, p.2 + 1)) = some (d, skip) →
        1 ≤ skip ∧ skip ≤ (c :: t).length := by
    intro radix digits bound hnumber
    obtain ⟨p, hp, he⟩ := Option.map_eq_some_iff.1 hnumber
    obtain ⟨-, rfl⟩ := Prod.mk.inj he
    obtain ⟨hdigits, hlen, -⟩ := number_take hp
    rw [List.length_cons]
    omega
  split at h
  · exact hmap h
  split at h
  · exact hmap h
  split at h
  · exact hmap h
  · obtain ⟨hdigits, hlen, -⟩ := number_take h
    dsimp only at hdigits
    omega

/-- What can come after a word. -/
def Ends (rest : Str) : Prop := rest = [] ∨ ∃ c s, rest = c :: s ∧ isBlank c = true

theorem escapeAt_ends {rest : Str} (hrest : Ends rest) (u : Str) : escapeAt (u ++ rest) = escapeAt u := by
  rcases hrest with rfl | ⟨c, s, rfl, hc⟩
  · rw [List.append_nil]
  · cases u with
    | nil => exact escapeAt_blank hc s
    | cons d u => exact escapeAt_append (Or.inl hc) (List.cons_ne_nil _ _) s

/-! ## Words -/

/-- `skip` characters belong to the escape before; `quote` is what ends the quotes that the scanner is in, and
`word` what has been read of the current word. Quotes have to end. -/
def wordsFrom : Nat → Option Char → Option Str → Str → Option (List Str)
  | _, none, word, [] => some word.toList
  | _, some _, _, [] => none
  | skip + 1, quote, word, _ :: s => wordsFrom skip quote word s
  | 0, quote, word, c :: s =>
    if c = '\\' then
      match escapeAt s with
      | some (d, skip) => wordsFrom skip quote (some (word.getD [] ++ [d])) s
      | none => wordsFrom 0 quote (some (word.getD [] ++ [c])) s
    else
      match quote with
      | some q => if c = q then wordsFrom 0 none word s else wordsFrom 0 quote (some (word.getD [] ++ [c])) s
      | none =>
        if isBlank c then (wordsFrom 0 none none s).map (word.toList ++ ·)
        else if c = '\'' || c = '"' then wordsFrom 0 (some c) (some (word.getD [])) s
        else wordsFrom 0 none (some (word.getD [] ++ [c])) s

def words (s : Str) : Option (List Str) := wordsFrom 0 none none s

section
variable {quote : Option Char} {word : Option Str} {c : Char} {s : Str}

theorem wordsFrom_skip {skip : Nat} : wordsFrom (skip + 1) quote word (c :: s) = wordsFrom skip quote word s := by
  cases quote <;> rfl

theorem wordsFrom_escape {d : Char} {skip : Nat} (h : escapeAt s = some (d, skip)) :
    wordsFrom 0 quote word ('\\' :: s) = wordsFrom skip quote (some (word.getD [] ++ [d])) s := by
  cases quote <;> simp [wordsFrom, h]

theorem wordsFrom_backslash (h : escapeAt s = none) :
    wordsFrom 0 quote word ('\\' :: s) = wordsFrom 0 quote (some (word.getD [] ++ ['\\'])) s := by
  cases quote <;> simp [wordsFrom, h]

theorem wordsFrom_close (hc : c ≠ '\\') : wordsFrom 0 (some c) word (c :: s) = wordsFrom 0 none word s := by
  simp [wordsFrom, hc]

theorem wordsFrom_quoted {q : Char} (hc : c ≠ '\\') (hq : c ≠ q) :
    wordsFrom 0 (some q) word (c :: s) = wordsFrom 0 (some q) (some (word.getD [] ++ [c])) s := by
  simp [wordsFrom, hc, hq]

theorem wordsFrom_blank (hc : isBlank c = true) :
    wordsFrom 0 none word (c :: s) = (words s).map (word.toList ++ ·) := by
  have hne : c ≠ '\\' := by
    rintro rfl
    exact absurd hc (by decide)
  simp [wordsFrom, words, hne, hc]

theorem wordsFrom_open (hc : c = '\'' ∨ c = '"') :
    wordsFrom 0 none word (c :: s) = wordsFrom 0 (some c) (some (word.getD [])) s := by
  rcases hc with rfl | rfl <;> simp [wordsFrom, isBlank]

theorem wordsFrom_bare (hc : c ≠ '\\') (hblank : isBlank c = false) (hquote : c ≠ '\'' ∧ c ≠ '"') :
    wordsFrom 0 none word (c :: s) = wordsFrom 0 none (some (word.getD [] ++ [c])) s := by
  simp [wordsFrom, hc, hblank, hquote.1, hquote.2]

end

/-- What can stand in a word without quotes. -/
structure Bare (s : Str) : Prop where
  plain : ∀ c ∈ s, isBlank c = false ∧ c ≠ '\'' ∧ c ≠ '"'
  escapeFree : EscapeFree s

theorem bare_cons {c : Char} {s : Str} : Bare (c :: s) ↔
    (isBlank c = false ∧ c ≠ '\'' ∧ c ≠ '"') ∧ (c = '\\' → escapeAt s = none) ∧ Bare s := by
  constructor
  · rintro ⟨hplain, hesc⟩
    rw [List.forall_mem_cons] at hplain
    rw [escapeFree_cons] at hesc
    exact ⟨hplain.1, hesc.1, hplain.2, hesc.2⟩
  · rintro ⟨hc, hesc, hs⟩
    exact ⟨List.forall_mem_cons.2 ⟨hc, hs.plain⟩, escapeFree_cons.2 ⟨hesc, hs.escapeFree⟩⟩

/-- A bare text is read as it stands. -/
theorem wordsFrom_append_bare {rest : Str} (hrest : Ends rest) : ∀ {s : Str} (word : Option Str), Bare s → s ≠ [] →
    wordsFrom 0 none word (s ++ rest) = wordsFrom 0 none (some (word.getD [] ++ s)) rest := by
  intro s
  induction s with
  | nil => exact fun _ _ hne => absurd rfl hne
  | cons c s ih =>
    intro word hbare _
    obtain ⟨⟨hblank, hquote⟩, hesc, hs⟩ := bare_cons.1 hbare
    have hstep : wordsFrom 0 none word (c :: (s ++ rest)) =
        wordsFrom 0 none (some (word.getD [] ++ [c])) (s ++ rest) := by
      by_cases hc : c = '\\'
      · subst hc
        exact wordsFrom_backslash ((escapeAt_ends hrest s).trans (hesc rfl))
      · exact wordsFrom_bare hc hblank hquote
    rw [List.cons_append, hstep]
    cases s with
    | nil => rfl
    | cons d s =>
      rw [ih _ hs (List.cons_ne_nil _ _)]
      simp

theorem words_of_bare {s : Str} (h : Bare s) (hne : s ≠ []) : words s = some [s] := by
  have hread := wordsFrom_append_bare (Or.inl rfl) none h hne
  rw [List.append_nil] at hread
  exact hread

/-- The quotes that a scanner can be in. -/
def IsQuote (quote : Option Char) : Prop := ∀ q, quote = some q → q = '\'' ∨ q = '"'

/-- Words do not depend on what comes after a blank, unless it is in quotes. -/
theorem exists_scanned : ∀ {s : Str} {skip : Nat} {quote : Option Char} {word : Option Str}, skip ≤ s.length →
    IsQuote quote → ∃ ws quote' word', IsQuote quote' ∧ ∀ rest, Ends rest →
      wordsFrom skip quote word (s ++ rest) = (wordsFrom 0 quote' word' rest).map (ws ++ ·)
  | [], skip, quote, word, hskip, hq => by
    obtain rfl := Nat.le_zero.1 hskip
    exact ⟨[], quote, word, hq, fun rest _ => by simp⟩
  | c :: s, skip + 1, quote, word, hskip, hq => by
    simp only [List.cons_append, wordsFrom_skip]
    exact exists_scanned (Nat.le_of_succ_le_succ hskip) hq
  | c :: s, 0, quote, word, _, hq => by
    -- the scanner goes on in a state that depends on `c` and on the escape after it
    have hnext : ∀ {skip quote₁ word₁}, skip ≤ s.length → IsQuote quote₁ → (∀ rest, Ends rest →
        wordsFrom 0 quote word (c :: (s ++ rest)) = wordsFrom skip quote₁ word₁ (s ++ rest)) →
        ∃ ws quote' word', IsQuote quote' ∧ ∀ rest, Ends rest →
          wordsFrom 0 quote word (c :: s ++ rest) = (wordsFrom 0 quote' word' rest).map (ws ++ ·) := by
      intro skip quote₁ word₁ hskip hq₁ hstep
      obtain ⟨ws, quote', word', hq', h⟩ := @exists_scanned s skip quote₁ word₁ hskip hq₁
      exact ⟨ws, quote', word', hq', fun rest hrest => (hstep rest hrest).trans (h rest hrest)⟩
    have hnone : IsQuote none := fun q hq => by cases hq
    by_cases hc : c = '\\'
    · subst hc
      cases hesc : escapeAt s with
      | none =>
        exact hnext (Nat.zero_le _) hq fun rest hrest => wordsFrom_backslash ((escapeAt_ends hrest s).trans hesc)
      | some e =>
        exact hnext (escapeAt_skip hesc).2 hq fun rest hrest => wordsFrom_escape ((escapeAt_ends hrest s).trans hesc)
    · cases quote with
      | some q =>
        by_cases hcq : c = q
        · subst hcq
          exact hnext (Nat.zero_le _) hnone fun rest _ => wordsFrom_close hc
        · exact hnext (Nat.zero_le _) hq fun rest _ => wordsFrom_quoted hc hcq
      | none =>
        cases hblank : isBlank c with
        | true =>
          obtain ⟨ws, quote', word', hq', h⟩ := @exists_scanned s 0 none none (Nat.zero_le _) hnone
          refine ⟨word.toList ++ ws, quote', word', hq', fun rest hrest => ?_⟩
          rw [List.cons_append, wordsFrom_blank hblank, words, h rest hrest, Option.map_map]
          simp only [Function.comp_def, List.append_assoc]
        | false =>
          by_cases hquote : c = '\'' ∨ c = '"'
          · refine hnext (Nat.zero_le _) ?_ fun rest _ => wordsFrom_open hquote
            intro q hcq
            obtain rfl := Option.some.inj hcq
            exact hquote
          · exact hnext (Nat.zero_le _) hnone fun rest _ => wordsFrom_bare hc hblank (not_or.1 hquote)

/-- Quotes that do not end have no meaning. -/
theorem wordsFrom_unclosed {q : Char} : ∀ {s : Str} {word : Option Str}, '\\' ∉ s → q ∉ s →
    wordsFrom 0 (some q) word s = none
  | [], _, _, _ => rfl
  | c :: s, word, hbackslash, hq => by
    rw [List.mem_cons, not_or] at hbackslash hq
    rw [wordsFrom_quoted (Ne.symm hbackslash.1) (Ne.symm hq.1)]
    exact wordsFrom_unclosed hbackslash.2 hq.2

theorem words_append_blank {s t : Str} {ws : List Str} (h : words s = some ws) :
    words (s ++ ' ' :: t) = (words t).map (ws ++ ·) := by
  obtain ⟨ws', quote', word', -, hscan⟩ := @exists_scanned s 0 none none (Nat.zero_le _) (fun q hq => by cases hq)
  have hs := hscan [] (Or.inl rfl)
  have hst := hscan (' ' :: t) (Or.inr ⟨' ', t, rfl, rfl⟩)
  rw [List.append_nil] at hs
  rw [words, hs] at h
  rw [words, hst]
  cases quote' with
  | some q => cases h
  | none =>
    obtain rfl := Option.some.inj h
    rw [wordsFrom_blank rfl, Option.map_map]
    simp only [Function.comp_def, List.append_assoc]

/-- What is read before a text without quotes does not depend on it. -/
theorem words_of_append_blank {s t : Str} {ws : List Str} (ht : '\\' ∉ t ∧ '\'' ∉ t ∧ '"' ∉ t)
    (h : words (s ++ ' ' :: t) = some ws) : ∃ ws', words s = some ws' := by
  obtain ⟨ws', quote', word', hq, hscan⟩ := @exists_scanned s 0 none none (Nat.zero_le _) (fun q hq => by cases hq)
  have hs := hscan [] (Or.inl rfl)
  rw [List.append_nil] at hs
  rw [words, hscan _ (Or.inr ⟨' ', t, rfl, rfl⟩)] at h
  rw [words, hs]
  cases quote' with
  | none => exact ⟨_, rfl⟩
  | some q =>
    have hnot : q ∉ ' ' :: t ∧ '\\' ∉ ' ' :: t := by
      rcases hq q rfl with rfl | rfl <;> simp [ht]
    rw [wordsFrom_unclosed hnot.2 hnot.1] at h
    cases h

/-! ## What is lost -/

/-- Characters that are no part of the language of quotes and blanks. -/
def significant (c : Char) : Bool := !(isBlank c || c = '\'' || c = '"')

/-- How much there is of a text. Quotes and blanks do not count, whatever they are read as. -/
def weight (s : Str) : Nat := s.countP significant

theorem weight_append (s t : Str) : weight (s ++ t) = weight s + weight t := List.countP_append

theorem weight_cons {c : Char} (hc : significant c = true) (s : Str) : weight (c :: s) = weight s + 1 :=
  List.countP_cons_of_pos hc

theorem weight_take_add_drop (n : Nat) (s : Str) : weight (s.take n) + weight (s.drop n) = weight s := by
  rw [← weight_append, List.take_append_drop]

/-- Escapes of quotes apart, what is escaped is more than quotes and blanks. -/
theorem escapeAt_significant {s : Str} {d : Char} {skip : Nat} (h : escapeAt s = some (d, skip)) :
    weight [d] ≤ weight (s.take skip) := by
  obtain ⟨hpos, -⟩ := escapeAt_skip h
  cases s with
  | nil => cases h
  | cons c t =>
    obtain ⟨n, rfl⟩ : ∃ n, skip = n + 1 := ⟨skip - 1, by omega⟩
    have hd : weight [d] ≤ 1 := List.countP_le_length
    have htake : weight [c] ≤ weight ((c :: t).take (n + 1)) := by
      unfold weight
      rw [List.take_succ_cons, List.countP_cons, List.countP_cons, List.countP_nil]
      omega
    by_cases hc : significant c = true
    · have hone : weight [c] = 1 := by simp [weight, hc]
      omega
    · simp only [significant, Bool.not_eq_true', Bool.not_eq_false, Bool.or_eq_true, decide_eq_true_eq] at hc
      rcases hc with (hc | rfl) | rfl
      · rw [escapeAt_blank hc] at h
        cases h
      · obtain ⟨rfl, -⟩ := Prod.mk.inj (Option.some.inj h)
        exact htake
      · obtain ⟨rfl, -⟩ := Prod.mk.inj (Option.some.inj h)
        exact htake

/-- Escapes do not add to what is counted. -/
def Shrinks (p : Char → Bool) : Prop := ∀ {s : Str} {d : Char} {skip : Nat}, escapeAt s = some (d, skip) →
  [d].countP p ≤ (s.take skip).countP p

theorem shrinks_significant : Shrinks significant := escapeAt_significant

theorem shrinks_all : Shrinks fun _ => true := by
  intro s d skip h
  have hskip := escapeAt_skip h
  simp only [List.countP_true, List.length_singleton, List.length_take]
  omega

/-- What the scanner does with one character: it adds it to the word, it adds what an escape stands for, it takes a
quote away, or it ends the word. -/
theorem wordsFrom_step {quote : Option Char} {word : Option Str} {c : Char} {s : Str} {ws : List Str}
    (h : wordsFrom 0 quote word (c :: s) = some ws) :
    (∃ quote', wordsFrom 0 quote' (some (word.getD [] ++ [c])) s = some ws ∧
      (quote = none → quote' = none ∧ (isBlank c = false ∧ c ≠ '\'' ∧ c ≠ '"') ∧ (c = '\\' → escapeAt s = none))) ∨
    (∃ d skip, escapeAt s = some (d, skip) ∧ wordsFrom skip quote (some (word.getD [] ++ [d])) s = some ws) ∨
    (∃ quote' word', word'.getD [] = word.getD [] ∧ wordsFrom 0 quote' word' s = some ws) ∨
    ∃ rest, wordsFrom 0 none none s = some rest ∧ ws = word.toList ++ rest := by
  by_cases hc : c = '\\'
  · subst hc
    cases hesc : escapeAt s with
    | none =>
      rw [wordsFrom_backslash hesc] at h
      exact Or.inl ⟨quote, h, fun hq => ⟨hq, by decide, fun _ => rfl⟩⟩
    | some e =>
      obtain ⟨d, skip⟩ := e
      rw [wordsFrom_escape hesc] at h
      exact Or.inr (Or.inl ⟨d, skip, rfl, h⟩)
  · cases quote with
    | some q =>
      by_cases hq : c = q
      · subst hq
        rw [wordsFrom_close hc] at h
        exact Or.inr (Or.inr (Or.inl ⟨none, word, rfl, h⟩))
      · rw [wordsFrom_quoted hc hq] at h
        exact Or.inl ⟨some q, h, fun he => by cases he⟩
    | none =>
      cases hblank : isBlank c with
      | true =>
        rw [wordsFrom_blank hblank] at h
        obtain ⟨rest, hrest, rfl⟩ := Option.map_eq_some_iff.1 h
        exact Or.inr (Or.inr (Or.inr ⟨rest, hrest, rfl⟩))
      | false =>
        by_cases hquote : c = '\'' ∨ c = '"'
        · rw [wordsFrom_open hquote] at h
          exact Or.inr (Or.inr (Or.inl ⟨some c, some (word.getD []), rfl, h⟩))
        · rw [wordsFrom_bare hc hblank (not_or.1 hquote)] at h
          exact Or.inl ⟨none, h, fun _ => ⟨rfl, ⟨rfl, not_or.1 hquote⟩, fun he => absurd he hc⟩⟩

/-- Words have no more than there is in the text. -/
theorem countP_words_le {p : Char → Bool} (hp : Shrinks p) : ∀ {s : Str} {skip : Nat} {quote : Option Char}
    {word : Option Str} {ws : List Str}, wordsFrom skip quote word s = some ws →
      ws.flatten.countP p ≤ (word.getD []).countP p + (s.drop skip).countP p
  | [], _, none, word, ws, h => by
    obtain rfl := Option.some.inj h
    cases word <;> simp
  | [], _, some _, _, _, h => by cases h
  | c :: s, skip + 1, quote, word, ws, h => by
    rw [wordsFrom_skip] at h
    rw [List.drop_succ_cons]
    exact countP_words_le hp h
  | c :: s, 0, quote, word, ws, h => by
    rw [List.drop_zero, List.countP_cons]
    rcases wordsFrom_step h with
      ⟨quote', hrest, -⟩ | ⟨d, skip, hesc, hrest⟩ | ⟨quote', word', hword, hrest⟩ | ⟨rest, hrest, rfl⟩
    · have ih := countP_words_le hp hrest
      simp only [Option.getD_some, List.countP_append, List.countP_singleton, List.drop_zero] at ih
      omega
    · have ih := countP_words_le hp hrest
      have hd := hp hesc
      have hsplit : s.countP p = (s.take skip).countP p + (s.drop skip).countP p := by
        rw [← List.countP_append, List.take_append_drop]
      simp only [Option.getD_some, List.countP_append] at ih
      omega
    · have ih := countP_words_le hp hrest
      rw [hword, List.drop_zero] at ih
      omega
    · have ih := countP_words_le hp hrest
      have hflat : word.toList.flatten.countP p = (word.getD []).countP p := by cases word <;> simp
      simp only [Option.getD_none, List.countP_nil, List.drop_zero] at ih
      rw [List.flatten_append, List.countP_append, hflat]
      omega

theorem weight_words_le {s : Str} {skip : Nat} {quote : Option Char} {word : Option Str} {ws : List Str}
    (h : wordsFrom skip quote word s = some ws) :
    weight ws.flatten ≤ weight (word.getD []) + weight (s.drop skip) := countP_words_le shrinks_significant h

theorem bare_nil : Bare [] := ⟨by simp, escapeFree_nil⟩

/-- Quotes, blanks and escapes cost characters. -/
theorem length_words_lt : ∀ {s : Str} {word : Option Str} {ws : List Str}, ¬ Bare s →
    wordsFrom 0 none word s = some ws →
    ws.flatten.length < (word.getD []).length + s.length
  | [], _, _, hbare, _ => absurd bare_nil hbare
  | c :: s, word, ws, hbare, h => by
    have hle : ∀ {skip quote word' ws'}, wordsFrom skip quote word' s = some ws' →
        ws'.flatten.length ≤ (word'.getD []).length + (s.length - skip) := by
      intro skip quote word' ws' hrest
      have hcount := countP_words_le shrinks_all hrest
      simpa only [List.countP_true, List.length_drop] using hcount
    rw [List.length_cons]
    rcases wordsFrom_step h with
      ⟨quote', hrest, hbareChar⟩ | ⟨d, skip, hesc, hrest⟩ | ⟨quote', word', hword, hrest⟩ | ⟨rest, hrest, rfl⟩
    · obtain ⟨rfl, hchar, hesc⟩ := hbareChar rfl
      have ih := length_words_lt (fun hs => hbare (bare_cons.2 ⟨hchar, hesc, hs⟩)) hrest
      simp only [Option.getD_some, List.length_append, List.length_singleton] at ih
      omega
    · have hskip := escapeAt_skip hesc
      have hlen := hle hrest
      simp only [Option.getD_some, List.length_append, List.length_singleton] at hlen
      omega
    · have hlen := hle hrest
      rw [hword] at hlen
      omega
    · have hlen := hle hrest
      have hflat : word.toList.flatten.length = (word.getD []).length := by cases word <;> simp
      simp only [Option.getD_none, List.length_nil] at hlen
      rw [List.flatten_append, List.length_append, hflat]
      omega

/-! ## Expansion -/

inductive Expansion where
  /-- `%%` or `$$` -/
  | doubled (c : Char)
  /-- `%I` -/
  | inst
  /-- Another `%x`. -/
  | specifier (c : Char)
  /-- `$NAME` or `${NAME}` -/
  | var (name : Str)
  deriving DecidableEq, Repr

def isNameStart (c : Char) : Bool := ('a' ≤ c && c ≤ 'z') || ('A' ≤ c && c ≤ 'Z') || c = '_'

def isNameChar (c : Char) : Bool := isNameStart c || ('0' ≤ c && c ≤ '9')

/-- The name of a variable that a text begins with. -/
def nameAt (s : Str) : Str := if s.head?.any isNameStart then s.takeWhile isNameChar else []

/-- What stands at the head of a text, and how many characters follow its first. -/
def expansionAt : Str → Option (Expansion × Nat)
  | '%' :: c :: _ => some (if c = '%' then .doubled '%' else if c = 'I' then .inst else .specifier c, 1)
  | '$' :: '$' :: _ => some (.doubled '$', 1)
  | '$' :: '\x7b' :: s =>
    if nameAt s ≠ [] ∧ (s.drop (nameAt s).length).head? = some '\x7d' then
      some (.var (nameAt s), (nameAt s).length + 2)
    else none
  | '$' :: s => if nameAt s ≠ [] then some (.var (nameAt s), (nameAt s).length) else none
  | _ => none

/-- What words are expanded with. -/
structure Manager where
  /-- The unescaped name of the instance. -/
  inst : Str
  specifier : Char → Str
  var : Str → Str

namespace Manager

def value (m : Manager) : Expansion → Str
  | .doubled c => [c]
  | .inst => m.inst
  | .specifier c => m.specifier c
  | .var name => m.var name

/-- `skip` characters belong to the expansion before. -/
def expandFrom (m : Manager) : Nat → Str → Str
  | _, [] => []
  | skip + 1, _ :: s => m.expandFrom skip s
  | 0, c :: s =>
    match expansionAt (c :: s) with
    | some (e, skip) => m.value e ++ m.expandFrom skip s
    | none => c :: m.expandFrom 0 s

def expand (m : Manager) (s : Str) : Str := m.expandFrom 0 s

/-- The command of a value. -/
def read (m : Manager) (value : Str) : Option (List Str) := (words value).map fun ws => ws.map m.expand

/-- The program of a value. -/
def program (m : Manager) (value : Str) : Option Str := (m.read value).bind List.head?

end Manager

/-- Nothing in `s` is expanded. -/
def Inert (s : Str) : Prop := ∀ t ∈ s.tails, expansionAt t = none

instance : DecidablePred Inert := fun s => inferInstanceAs (Decidable (∀ t ∈ s.tails, expansionAt t = none))

theorem inert_cons {c : Char} {s : Str} : Inert (c :: s) ↔ expansionAt (c :: s) = none ∧ Inert s := by
  simp [Inert]

theorem expand_inert {m : Manager} : ∀ {s : Str}, Inert s → m.expand s = s
  | [], _ => rfl
  | c :: s, h => by
    obtain ⟨hc, hs⟩ := inert_cons.1 h
    have ih := @expand_inert m s hs
    simp only [Manager.expand, Manager.expandFrom, hc] at ih ⊢
    rw [ih]

/-- A manager for which everything is empty but the instance. -/
def mute (inst : Str) : Manager := ⟨inst, fun _ => [], fun _ => []⟩

/-- The instance apart, a mute manager expands to no more than what follows the `%` or `$`. -/
theorem expansionAt_weight {inst : Str} {c : Char} {s : Str} {e : Expansion} {skip : Nat}
    (h : expansionAt (c :: s) = some (e, skip)) : significant c = true ∧
      ((e = .inst ∧ weight (s.take skip) = 1) ∨ weight ((mute inst).value e) ≤ weight (s.take skip)) := by
  unfold expansionAt at h
  split at h
  · rename_i c' d s' hc
    obtain ⟨rfl, rfl⟩ := List.cons.inj hc
    obtain ⟨he, rfl⟩ := Prod.mk.inj (Option.some.inj h)
    refine ⟨by decide, ?_⟩
    split at he
    · rename_i hd
      subst he hd
      exact Or.inr (by simp [Manager.value, weight])
    · split at he
      · rename_i hd
        subst he hd
        exact Or.inl ⟨rfl, rfl⟩
      · subst he
        exact Or.inr (Nat.zero_le _)
  · rename_i s' hc
    obtain ⟨rfl, rfl⟩ := List.cons.inj hc
    obtain ⟨rfl, rfl⟩ := Prod.mk.inj (Option.some.inj h)
    exact ⟨by decide, Or.inr (by simp [Manager.value, weight])⟩
  · rename_i s' hc
    obtain ⟨rfl, rfl⟩ := List.cons.inj hc
    split at h
    · obtain ⟨rfl, rfl⟩ := Prod.mk.inj (Option.some.inj h)
      exact ⟨by decide, Or.inr (Nat.zero_le _)⟩
    · cases h
  · rename_i s' hc
    obtain ⟨rfl, rfl⟩ := List.cons.inj hc
    split at h
    · obtain ⟨rfl, rfl⟩ := Prod.mk.inj (Option.some.inj h)
      exact ⟨by decide, Or.inr (Nat.zero_le _)⟩
    · cases h
  · cases h

section
variable {inst : Str}

theorem weight_expandFrom_le (hinst : weight inst ≤ 2) : ∀ {s : Str} {skip : Nat},
    weight ((mute inst).expandFrom skip s) ≤ weight (s.drop skip)
  | [], skip => by cases skip <;> simp [Manager.expandFrom]
  | c :: s, skip + 1 => by
    rw [Manager.expandFrom, List.drop_succ_cons]
    exact weight_expandFrom_le hinst
  | c :: s, 0 => by
    cases he : expansionAt (c :: s) with
    | none =>
      have ih := @weight_expandFrom_le hinst s 0
      simp only [Manager.expandFrom, he, List.drop_zero] at ih ⊢
      simp only [weight, List.countP_cons] at ih ⊢
      omega
    | some p =>
      obtain ⟨e, skip⟩ := p
      have ih := @weight_expandFrom_le hinst s skip
      obtain ⟨hc, hvalue⟩ := @expansionAt_weight inst _ _ _ _ he
      have hsplit := weight_take_add_drop skip s
      have hvalue' : weight ((mute inst).value e) ≤ 1 + weight (s.take skip) := by
        rcases hvalue with ⟨rfl, hone⟩ | hle
        · rw [hone]
          exact hinst
        · omega
      simp only [Manager.expandFrom, he, List.drop_zero, weight_append, weight_cons hc]
      omega

/-- An expansion costs something if the instance does not make up for it. -/
theorem weight_expand_lt (hinst : weight inst ≤ 1) : ∀ {s : Str}, ¬ Inert s →
    weight ((mute inst).expand s) < weight s
  | [], h => absurd (fun t ht => by simp_all [expansionAt]) h
  | c :: s, h => by
    rw [inert_cons] at h
    cases he : expansionAt (c :: s) with
    | none =>
      have ih := weight_expand_lt hinst fun hs => h ⟨he, hs⟩
      simp only [Manager.expand, Manager.expandFrom, he] at ih ⊢
      simp only [weight, List.countP_cons] at ih ⊢
      omega
    | some p =>
      obtain ⟨e, skip⟩ := p
      have hrest := @weight_expandFrom_le inst (by omega) s skip
      obtain ⟨hc, hvalue⟩ := @expansionAt_weight inst _ _ _ _ he
      have hsplit := weight_take_add_drop skip s
      have hvalue' : weight ((mute inst).value e) ≤ weight (s.take skip) := by
        rcases hvalue with ⟨rfl, hone⟩ | hle
        · rw [hone]
          exact hinst
        · exact hle
      simp only [Manager.expand, Manager.expandFrom, he, weight_append, weight_cons hc]
      omega

end

/-- **What every manager leaves as it is** is inert. -/
theorem expand_eq_self_iff {s : Str} : (∀ m : Manager, m.expand s = s) ↔ Inert s := by
  constructor
  · intro h
    by_contra hs
    have hlt := @weight_expand_lt [] (Nat.zero_le 1) s hs
    rw [h] at hlt
    exact Nat.lt_irrefl _ hlt
  · exact fun hs m => expand_inert hs

theorem length_expandFrom_le : ∀ {s : Str} {skip : Nat},
    ((mute []).expandFrom skip s).length ≤ (s.drop skip).length
  | [], skip => by cases skip <;> simp [Manager.expandFrom]
  | c :: s, skip + 1 => by
    rw [Manager.expandFrom, List.drop_succ_cons]
    exact length_expandFrom_le
  | c :: s, 0 => by
    have hvalue : ∀ e, ((mute []).value e).length ≤ 1 := fun e => by cases e <;> simp [Manager.value, mute]
    have ih := fun skip => @length_expandFrom_le s skip
    simp only [Manager.expandFrom, List.drop_zero, List.length_cons, List.length_drop] at ih ⊢
    cases he : expansionAt (c :: s) with
    | none =>
      have hrest := ih 0
      simp only [List.length_cons]
      omega
    | some p =>
      have hrest := ih p.2
      have hhead := hvalue p.1
      simp only [List.length_append]
      omega

/-- The first word of a text is no longer than the text. -/
theorem length_of_reads {s t raw : Str} {rest : List Str} (hwords : words s = some (raw :: rest))
    (hexpand : ∀ m : Manager, m.expand raw = t) : t.length ≤ raw.length ∧ t.length ≤ s.length := by
  have hraw := @length_expandFrom_le raw 0
  have hall := countP_words_le shrinks_all hwords
  rw [← Manager.expand, hexpand, List.drop_zero] at hraw
  simp only [List.countP_true, Option.getD_none, List.length_nil, List.flatten_cons, List.length_append,
    List.drop_zero] at hall
  omega

/-- **A text whose first word is the text itself**, for every manager. -/
theorem reads_self_iff {s : Str} : (∃ raw rest, words s = some (raw :: rest) ∧ ∀ m : Manager, m.expand raw = s) ↔
    s ≠ [] ∧ Bare s ∧ Inert s := by
  constructor
  · rintro ⟨raw, rest, hwords, hexpand⟩
    have hne : s ≠ [] := by
      rintro rfl
      cases hwords
    have hraw := (length_of_reads hwords hexpand).1
    have hbare : Bare s := by
      by_contra hbare
      have hlt := length_words_lt hbare hwords
      rw [List.flatten_cons, List.length_append, Option.getD_none, List.length_nil] at hlt
      omega
    rw [words_of_bare hbare hne] at hwords
    obtain ⟨rfl, -⟩ := List.cons.inj (Option.some.inj hwords)
    exact ⟨hne, hbare, expand_eq_self_iff.1 hexpand⟩
  · rintro ⟨hne, hbare, hinert⟩
    exact ⟨s, [], words_of_bare hbare hne, expand_eq_self_iff.2 hinert⟩

end ExecLine
