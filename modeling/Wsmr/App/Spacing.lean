import Mathlib.Data.List.Forall2
import Wsmr.App.Reading

/-!
# Space around `=` in desktop entries (`src/app/entry.rs`)

A line is classified alike, whatever blanks stand around its first `=`, and its key is the same (`lineOf_respaced`).
Its value is not: blanks after the `=` belong to it. Two texts that differ in such blanks mean the same exactly when
the last value of every key that can be asked for has not changed (`same_meaning_iff`).
-/

namespace Wsmr

open Text Std

/-! ## The ends of trimmed text -/

section
variable {s t : Str}

theorem trimEnd_cons {c : Char} (hc : isWhitespace c = false) (s : Str) : trimEnd (c :: s) = c :: trimEnd s := by
  unfold trimEnd
  rw [List.reverse_cons, List.dropWhile_append]
  split
  · rename_i h
    rw [List.isEmpty_iff.1 h, List.dropWhile_cons_of_neg (by simp [hc])]
    rfl
  · rw [List.reverse_append]
    rfl

theorem head?_trim_eq (s : Str) : (trim s).head? = s.find? fun c => !isWhitespace c := by
  rw [List.find?_not_eq_head?_dropWhile, trim, trimStart]
  cases h : s.dropWhile isWhitespace with
  | nil => rfl
  | cons c t =>
    rw [trimEnd_cons (head?_dropWhile s c (by rw [h]; rfl))]
    rfl

theorem getLast?_trim_eq (s : Str) : (trim s).getLast? = s.reverse.find? fun c => !isWhitespace c := by
  have hskip : (s.takeWhile isWhitespace).reverse.find? (fun c => !isWhitespace c) = none := by
    rw [List.find?_eq_none]
    intro c hc
    rw [List.mem_takeWhile_imp (List.mem_reverse.1 hc)]
    decide
  rw [trim, trimEnd, List.getLast?_reverse, ← List.find?_not_eq_head?_dropWhile, trimStart]
  nth_rewrite 2 [← @List.takeWhile_append_dropWhile _ isWhitespace s]
  rw [List.reverse_append, List.find?_append, hskip, Option.or_none]

/-- White space at the end. -/
theorem trim_append (s : Str) (ht : ∀ c ∈ t, isWhitespace c = true) : trim (s ++ t) = trim s := by
  have hend : ∀ u : Str, trimEnd (u ++ t) = trimEnd u := fun u => by
    rw [trimEnd, List.reverse_append, List.dropWhile_append_of_pos fun c hc => ht c (List.mem_reverse.1 hc), trimEnd]
  have hblank : t.dropWhile isWhitespace = [] := List.dropWhile_eq_nil_iff.2 ht
  rw [trim, trim, trimStart, trimStart, List.dropWhile_append]
  split
  · rename_i h
    rw [List.isEmpty_iff.1 h, hblank]
  · exact hend _

theorem trimEndMatches_append {c : Char} (hs : s.getLast? ≠ some c) (t : Str) :
    trimEndMatches c (s ++ t) = s ++ trimEndMatches c t := by
  unfold trimEndMatches
  rw [List.reverse_append, List.dropWhile_append]
  split
  · rename_i h
    rw [List.isEmpty_iff.1 h, dropWhile_eq_of_head, List.reverse_reverse]
    · exact (List.append_nil s).symm
    · intro d hd
      rw [List.head?_reverse] at hd
      rw [beq_eq_false_iff_ne]
      rintro rfl
      exact hs hd
  · rw [List.reverse_append, List.reverse_reverse]

end

namespace DesktopEntry

/-! ## Lines -/

def Blank (a : Str) : Prop := ∀ c ∈ a, c = ' ' ∨ c = '\t'

def IsKeyLine (raw : Str) : Prop := ∃ k v, lineOf raw = .value k v

/-- The same line, or one with other blanks directly around the first `=`. -/
inductive Respaced : Str → Str → Prop
  | same {raw : Str} : Respaced raw raw
  | around {k a a' b b' v : Str} (hk : '=' ∉ k) (ha : Blank a) (ha' : Blank a') (hb : Blank b) (hb' : Blank b')
    (hkey : IsKeyLine (k ++ a ++ '=' :: b ++ v)) : Respaced (k ++ a ++ '=' :: b ++ v) (k ++ a' ++ '=' :: b' ++ v)

theorem Blank.isWhitespace {a : Str} (h : Blank a) : ∀ c ∈ a, isWhitespace c = true := by
  intro c hc
  rcases h c hc with rfl | rfl
  · decide
  · decide

theorem stripSuffix_singleton_eq_none_iff (c : Char) (s : Str) : stripSuffix [c] s = none ↔ s.getLast? ≠ some c := by
  have hsuffix : [c] <:+ s ↔ s.getLast? = some c := by
    rw [List.getLast?_eq_some_iff]
    exact ⟨fun ⟨t, h⟩ => ⟨t, h.symm⟩, fun ⟨t, h⟩ => ⟨t, h.symm⟩⟩
  rw [ne_eq, ← hsuffix, stripSuffix]
  split
  · rename_i h
    exact ⟨fun he => absurd he (Option.some_ne_none _), fun hno => absurd h hno⟩
  · rename_i h
    exact ⟨fun _ => h, fun _ => rfl⟩

/-- A header is told by its first and last characters. -/
theorem header_eq_none_iff (s : Str) : (stripPrefix "[".toList s).bind (stripSuffix "]".toList) = none ↔
    ¬ (s.head? = some '[' ∧ s.getLast? = some ']') := by
  cases hp : stripPrefix "[".toList s with
  | none =>
    refine ⟨fun _ h => ?_, fun _ => rfl⟩
    obtain ⟨t, rfl⟩ := List.head?_eq_some_iff.1 h.1
    rw [stripPrefix_eq_some.2 (rfl : '[' :: t = "[".toList ++ t)] at hp
    cases hp
  | some t =>
    obtain rfl := stripPrefix_eq_some.1 hp
    show stripSuffix [']'] t = none ↔ ¬ (some '[' = some '[' ∧ ('[' :: t).getLast? = some ']')
    rw [stripSuffix_singleton_eq_none_iff, List.getLast?_cons]
    cases t.getLast? with
    | none => simp
    | some c => simp

/-- The first character of a key that is not blank. -/
def first (s : Str) : Option Char := s.find? fun c => !isWhitespace c

/-- What keeps a line with a `=` from being read as a comment or a header. -/
def Keyed (k v : Str) : Prop :=
  first k ≠ some '#' ∧ ¬ (first k = some '[' ∧ first (trimEndMatches '\r' v).reverse = some ']')

theorem first_append (s t : Str) : first (s ++ t) = (first s).or (first t) := List.find?_append

theorem first_blank {a : Str} (ha : Blank a) : first a = none := by
  rw [first, List.find?_eq_none]
  intro c hc
  rw [ha.isWhitespace c hc]
  decide

/-- How the line of a key begins. -/
theorem head?_trim_keyLine {k a : Str} (ha : Blank a) (s : Str) :
    (trim (k ++ a ++ '=' :: s)).head? = (first k).or (some '=') := by
  rw [head?_trim_eq, ← first, first_append, first_append, first_blank ha, Option.or_none]
  cases first k with
  | some c => rfl
  | none => simp [first, isWhitespace]

/-- How the line of a key ends. -/
theorem getLast?_trim_keyLine {b : Str} (hb : Blank b) (s v : Str) :
    (trim (s ++ '=' :: b ++ v)).getLast? = (first v.reverse).or (some '=') := by
  rw [getLast?_trim_eq, ← first, List.reverse_append, List.reverse_append, List.reverse_cons, first_append,
    first_append, first_append, first_blank fun c hc => hb c (List.mem_reverse.1 hc)]
  cases first v.reverse with
  | some c => rfl
  | none => simp [first, isWhitespace]

/-- The line of a key, split up. -/
theorem lineOf_around {k a b : Str} (hk : '=' ∉ k) (ha : Blank a) (hb : Blank b) (v : Str) :
    (Keyed k v → lineOf (k ++ a ++ '=' :: b ++ v) = .value (trim k) (b ++ trimEndMatches '\r' v)) ∧
      (¬ Keyed k v → ¬ IsKeyLine (k ++ a ++ '=' :: b ++ v)) := by
  have hline : trimEndMatches '\r' (k ++ a ++ '=' :: b ++ v) = k ++ a ++ '=' :: b ++ trimEndMatches '\r' v := by
    refine trimEndMatches_append ?_ v
    rw [List.getLast?_append_of_ne_nil _ (List.cons_ne_nil _ _), List.getLast?_cons]
    cases hlast : b.getLast? with
    | none => simp
    | some c =>
      rcases hb c (List.mem_of_mem_getLast? hlast) with rfl | rfl
      · simp
      · simp
  have hhead : (trim (k ++ a ++ '=' :: b ++ trimEndMatches '\r' v)).head? = (first k).or (some '=') := by
    rw [List.append_assoc (k ++ a)]
    exact head?_trim_keyLine ha _
  have hlast : (trim (k ++ a ++ '=' :: b ++ trimEndMatches '\r' v)).getLast? =
      (first (trimEndMatches '\r' v).reverse).or (some '=') := getLast?_trim_keyLine hb _ _
  have hsplit : splitOnce '=' (k ++ a ++ '=' :: b ++ trimEndMatches '\r' v) =
      some (k ++ a, b ++ trimEndMatches '\r' v) := by
    rw [List.append_assoc (k ++ a), List.cons_append]
    refine splitOnce_append _ fun hmem => (List.mem_append.1 hmem).elim hk fun hmem => ?_
    rcases ha _ hmem with h | h <;> cases h
  have hor : ∀ {o : Option Char} {c : Char}, c ≠ '=' → (o.or (some '=') = some c ↔ o = some c) := by
    intro o c hc
    cases o with
    | none => simp [hc.symm]
    | some d => rfl
  rw [IsKeyLine]
  unfold lineOf
  dsimp only
  rw [hline, hsplit]
  generalize trim (k ++ a ++ '=' :: b ++ trimEndMatches '\r' v) = t at hhead hlast ⊢
  have hne : t ≠ [] := by
    rintro rfl
    cases hf : first k <;> rw [hf] at hhead <;> cases hhead
  have hcomment : t.head? = some '#' ↔ first k = some '#' := by rw [hhead, hor (by decide)]
  have hheader := header_eq_none_iff t
  rw [hhead, hlast, hor (by decide), hor (by decide)] at hheader
  constructor
  · rintro ⟨hc, hh⟩
    rw [if_neg (by simp [hne, hcomment, hc]), hheader.2 hh, ← trim_append k ha.isWhitespace]
  · rintro hno ⟨k', v', hkey⟩
    split at hkey
    · cases hkey
    · rename_i hc
      have hfirst : first k ≠ some '#' := fun h => hc (by simp [hcomment.2 h])
      have hsome : (stripPrefix "[".toList t).bind (stripSuffix "]".toList) ≠ none := fun hnone =>
        hno ⟨hfirst, hheader.1 hnone⟩
      obtain ⟨name, hname⟩ := Option.ne_none_iff_exists'.1 hsome
      rw [hname] at hkey
      cases hkey

/-- The same, but for a value. -/
inductive Alike : Line → Line → Prop
  | same {l : Line} : Alike l l
  | value {k v v' : Str} : Alike (.value k v) (.value k v')

/-- **A line is read alike**, whatever blanks stand around the `=`. -/
theorem lineOf_respaced {raw raw' : Str} (h : Respaced raw raw') : Alike (lineOf raw) (lineOf raw') := by
  cases h with
  | same => exact .same
  | @around k a a' b b' v hk ha ha' hb hb' hkey =>
    have hkeyed : Keyed k v := by
      by_contra hno
      exact (lineOf_around hk ha hb v).2 hno hkey
    rw [(lineOf_around hk ha hb v).1 hkeyed, (lineOf_around hk ha' hb' v).1 hkeyed]
    exact .value

theorem lineOf_stripCr (raw : Str) : lineOf (stripCr raw) = lineOf raw := by
  have hcr : trimEndMatches '\r' (stripCr raw) = trimEndMatches '\r' raw := by
    unfold stripCr
    split
    · rename_i h
      obtain ⟨t, rfl⟩ := List.getLast?_eq_some_iff.1 h
      simp [trimEndMatches]
    · rfl
  unfold lineOf
  rw [hcr]

theorem respaced_nil_iff {raw raw' : Str} (h : Respaced raw raw') : raw = [] ↔ raw' = [] := by
  cases h with
  | same => rfl
  | around => simp

/-! ## Texts -/

/-- The same text, but for blanks around the first `=` of lines with a key. -/
def Respelled (content content' : Str) : Prop :=
  List.Forall₂ Respaced (content.splitOn '\n') (content'.splitOn '\n')

theorem alike_linesOf {ps ps' : List Str} (h : List.Forall₂ Respaced ps ps') :
    List.Forall₂ (fun l l' => Alike (lineOf l) (lineOf l')) (linesOf ps) (linesOf ps') := by
  induction h with
  | nil => exact .nil
  | @cons p p' ps ps' hp hps ih =>
    cases hps with
    | nil =>
      unfold linesOf
      by_cases hnil : p = []
      · rw [if_pos hnil, if_pos ((respaced_nil_iff hp).1 hnil)]
        exact .nil
      · rw [if_neg hnil, if_neg (mt (respaced_nil_iff hp).2 hnil)]
        exact .cons (lineOf_respaced hp) .nil
    | cons hq hqs =>
      refine .cons ?_ ih
      rw [lineOf_stripCr, lineOf_stripCr]
      exact lineOf_respaced hp

/-- The same group and key. -/
def SameKey (e e' : Entry) : Prop := e.group = e'.group ∧ e.key = e'.key

theorem sameKey_entriesFrom {ls ls' : List Str} (h : List.Forall₂ (fun l l' => Alike (lineOf l) (lineOf l')) ls ls') :
    ∀ current, List.Forall₂ SameKey (entriesFrom current ls) (entriesFrom current ls') := by
  induction h with
  | nil => exact fun _ => .nil
  | @cons raw raw' ls ls' hl hls ih =>
    intro current
    have hgroup : groupAfter current raw = groupAfter current raw' := by
      unfold groupAfter
      generalize lineOf raw = l, lineOf raw' = l' at hl
      cases hl <;> rfl
    have hentry : List.Forall₂ SameKey (entryOf current raw).toList (entryOf current raw').toList := by
      unfold entryOf
      generalize lineOf raw = l, lineOf raw' = l' at hl
      cases hl with
      | same => exact List.forall₂_same.2 fun e _ => ⟨rfl, rfl⟩
      | value =>
        cases current with
        | none => exact .nil
        | some g => exact .cons ⟨rfl, rfl⟩ .nil
    rw [entriesFrom, entriesFrom, hgroup]
    exact List.rel_append hentry (ih _)

theorem hasGroup_respelled {content content' : Str} (h : Respelled content content') (group : Str) :
    HasGroup content group ↔ HasGroup content' group := by
  have hlines : List.Forall₂ (fun l l' => Alike (lineOf l) (lineOf l')) (lines content) (lines content') :=
    alike_linesOf h
  unfold HasGroup
  generalize lines content = ls, lines content' = ls' at hlines
  induction hlines with
  | nil => rfl
  | @cons raw raw' ls ls' hl hls ih =>
    have hheader : lineOf raw = .header group ↔ lineOf raw' = .header group := by
      generalize lineOf raw = l, lineOf raw' = l' at hl
      cases hl with
      | same => rfl
      | value => exact ⟨nofun, nofun⟩
    rw [List.exists_mem_cons_iff, List.exists_mem_cons_iff]
    exact or_congr hheader ih

/-! ## Last values -/

/-- The last of the pairs for each key in each group. -/
def lastOnes : List (Entry × Entry) → List (Entry × Entry)
  | [] => []
  | z :: zs => if zs.any fun y => y.1.group = z.1.group ∧ y.1.key = z.1.key then lastOnes zs else z :: lastOnes zs

/-- The last value of every key that can be asked for is the same. -/
def SameLastValues (content content' : Str) : Prop :=
  ∀ z ∈ lastOnes ((entries content).zip (entries content')), (∃ action, z.1.group = groupName action) →
    z.1.value = z.2.value

theorem lastOnes_subset : ∀ zs, lastOnes zs ⊆ zs
  | [] => nofun
  | z :: zs => by
    unfold lastOnes
    split
    · exact fun y hy => List.mem_cons_of_mem z (lastOnes_subset zs hy)
    · exact List.cons_subset_cons z (lastOnes_subset zs)

theorem lookup_cons (e : Entry) (es : List Entry) (group key : Str) : lookup (e :: es) group key =
    (lookup es group key).or (if e.group = group ∧ e.key = key then some e.value else none) := by
  have happend := lookup_append [e] es group key
  rw [List.singleton_append] at happend
  rw [happend]
  congr 1
  unfold lookup
  by_cases h : e.group = group ∧ e.key = key
  · simp [h]
  · simp [h]

theorem lookup_eq_none_iff (es : List Entry) (group key : Str) :
    lookup es group key = none ↔ ∀ e ∈ es, ¬ (e.group = group ∧ e.key = key) := by
  simp [lookup]

/-- **One key**: looked up in both, the same value is found exactly when the last pair is one of equal values. -/
theorem lookup_eq_iff {group key : Str} : ∀ {zs : List (Entry × Entry)}, (∀ z ∈ zs, SameKey z.1 z.2) →
    (lookup (zs.map Prod.fst) group key = lookup (zs.map Prod.snd) group key ↔
      ∀ z ∈ lastOnes zs, z.1.group = group → z.1.key = key → z.1.value = z.2.value)
  | [], _ => by simp [lastOnes]
  | z :: zs, h => by
    obtain ⟨hz, hzs⟩ := List.forall_mem_cons.1 h
    have ih := @lookup_eq_iff group key zs hzs
    rw [List.map_cons, List.map_cons, lookup_cons, lookup_cons, lastOnes, ← hz.1, ← hz.2]
    have hsnd : (∀ y ∈ zs, ¬ (y.1.group = group ∧ y.1.key = key)) ↔ lookup (zs.map Prod.snd) group key = none := by
      rw [lookup_eq_none_iff, List.forall_mem_map]
      refine forall₂_congr fun y hy => ?_
      rw [(hzs y hy).1, (hzs y hy).2]
    have hfst : (∀ y ∈ zs, ¬ (y.1.group = group ∧ y.1.key = key)) ↔ lookup (zs.map Prod.fst) group key = none := by
      rw [lookup_eq_none_iff, List.forall_mem_map]
    by_cases hkey : z.1.group = group ∧ z.1.key = key
    · rw [if_pos hkey, if_pos hkey]
      obtain ⟨rfl, rfl⟩ := hkey
      by_cases hnone : ∀ y ∈ zs, ¬ (y.1.group = z.1.group ∧ y.1.key = z.1.key)
      · rw [hfst.1 hnone, hsnd.1 hnone, if_neg (by simpa using hnone), List.forall_mem_cons]
        simp only [Option.none_or, Option.some.injEq, forall_const]
        refine (and_iff_left ?_).symm
        exact fun y hy hg hk => absurd ⟨hg, hk⟩ (hnone y (lastOnes_subset zs hy))
      · obtain ⟨v, hv⟩ := Option.ne_none_iff_exists'.1 (mt hfst.2 hnone)
        obtain ⟨v', hv'⟩ := Option.ne_none_iff_exists'.1 (mt hsnd.2 hnone)
        rw [hv, hv', if_pos (by simpa using hnone), ← ih, hv, hv']
        rfl
    · rw [if_neg hkey, if_neg hkey, Option.or_none, Option.or_none, ih]
      split
      · rfl
      · rw [List.forall_mem_cons]
        exact (and_iff_right fun hg hk => absurd ⟨hg, hk⟩ hkey).symm

/-! ## What the two texts mean -/

/-- Both texts are desktop entries that answer alike. -/
def SameMeaning (filename content content' : Str) : Prop :=
  ∃ e e', parse filename content = .ok e ∧ parse filename content' = .ok e' ∧
    (∀ key action, e.get key action = e'.get key action) ∧ e.terminal = e'.terminal ∧ e.path = e'.path ∧
    e.categories = e'.categories ∧ ∀ host action, e.checkBasic host action = e'.checkBasic host action

/-- What is asked of an entry goes through `get`. -/
theorem checkBasic_congr {e e' : DesktopEntry} (hname : e.filename = e'.filename)
    (hget : ∀ key action, e.get key action = e'.get key action)
    (hgroup : ∀ action, (e.group action).isSome = (e'.group action).isSome) (host : Host) (action : Option Str) :
    e.checkBasic host action = e'.checkBasic host action := by
  have haction : ∀ a, e.checkAction a = e'.checkAction a := by
    intro a
    have hvalue : ∀ key, (e.group (some a)).bind (·[key]?) = (e'.group (some a)).bind (·[key]?) :=
      fun key => hget key (some a)
    have hsome := hgroup (some a)
    unfold checkAction DesktopEntry.actions
    rw [hget, hname]
    cases hg : e.group (some a) with
    | none =>
      rw [hg] at hsome
      rw [Option.isSome_eq_false_iff.1 hsome.symm |> Option.isNone_iff_eq_none.1]
    | some g =>
      rw [hg] at hsome hvalue
      obtain ⟨g', hg'⟩ := Option.isSome_iff_exists.1 hsome.symm
      rw [hg'] at hvalue ⊢
      have hkey : ∀ key : Str, g[key]? = g'[key]? := hvalue
      simp only [hkey]
  unfold checkBasic checkCommand DesktopEntry.exec
  simp only [hget, hname, haction]

/-- **Blanks around `=` do not matter** exactly when no last value has other blanks before it. -/
theorem same_meaning_iff (filename content content' : Str) (hparse : ∃ e, parse filename content = .ok e)
    (h : Respelled content content') : SameMeaning filename content content' ↔ SameLastValues content content' := by
  obtain ⟨e, he⟩ := hparse
  obtain ⟨e', he'⟩ := (parse_ok_iff filename content').2
    ((hasGroup_respelled h mainGroup).1 ((parse_ok_iff filename content).1 ⟨e, he⟩))
  have hkeys : List.Forall₂ SameKey (entries content) (entries content') := sameKey_entriesFrom (alike_linesOf h) none
  have hzip : ∀ z ∈ (entries content).zip (entries content'), SameKey z.1 z.2 := fun z hz => List.forall₂_zip hkeys hz
  have hget : ∀ key action, e.get key action = e'.get key action ↔
      ∀ z ∈ lastOnes ((entries content).zip (entries content')), z.1.group = groupName action → z.1.key = key →
        z.1.value = z.2.value := fun key action => by
    rw [get_parse he, get_parse he', ← lookup_eq_iff hzip, List.map_fst_zip hkeys.length_eq.le,
      List.map_snd_zip hkeys.length_eq.ge]
  constructor
  · rintro ⟨_, _, hf, hf', hsame, -⟩ z hz ⟨action, haction⟩
    obtain rfl := Except.ok.inj (he.symm.trans hf)
    obtain rfl := Except.ok.inj (he'.symm.trans hf')
    exact (hget z.1.key action).1 (hsame _ _) z hz haction rfl
  · intro hlast
    have hsame : ∀ key action, e.get key action = e'.get key action := fun key action =>
      (hget key action).2 fun z hz hg _ => hlast z hz ⟨action, hg⟩
    refine ⟨e, e', he, he', hsame, ?_, ?_, ?_, checkBasic_congr ?_ hsame fun action => ?_⟩
    · rw [DesktopEntry.terminal, DesktopEntry.terminal, hsame]
    · rw [DesktopEntry.path, DesktopEntry.path, hsame]
    · rw [DesktopEntry.categories, DesktopEntry.categories, hsame]
    · rw [(groups_parse he).1, (groups_parse he').1]
    · rw [Bool.eq_iff_iff, group_isSome_parse he, group_isSome_parse he', hasGroup_respelled h]

theorem respelled_type {a' b' : Str} (ha : Blank a') (hb : Blank b') {content' : Str}
    (hcontent : content'.splitOn '\n' =
      ["[Desktop Entry]".toList, "Type".toList ++ a' ++ '=' :: b' ++ "Application".toList, []]) :
    Respelled "[Desktop Entry]\nType=Application\n".toList content' := by
  have hsplit : "[Desktop Entry]\nType=Application\n".toList.splitOn '\n' =
      ["[Desktop Entry]".toList, "Type".toList ++ [] ++ '=' :: [] ++ "Application".toList, []] := by
    repeat rw [String.toList_ofList]
    decide
  have hkey : IsKeyLine ("Type".toList ++ [] ++ '=' :: [] ++ "Application".toList) :=
    ⟨"Type".toList, "Application".toList, by decide⟩
  unfold Respelled
  rw [hsplit, hcontent]
  exact .cons .same (.cons (.around (by decide) nofun ha nofun hb hkey) (.cons .same .nil))

/-- Blanks before the `=` are of no account. -/
theorem same_meaning_before : SameMeaning "/x/a.desktop".toList "[Desktop Entry]\nType=Application\n".toList
    "[Desktop Entry]\nType \t=Application\n".toList := by
  have hlast : ∀ z ∈ lastOnes ((entries "[Desktop Entry]\nType=Application\n".toList).zip
      (entries "[Desktop Entry]\nType \t=Application\n".toList)), z.1.value = z.2.value := by
    repeat rw [String.toList_ofList]
    decide
  refine (same_meaning_iff _ _ _ ((parse_ok_iff _ _).2 ⟨"[Desktop Entry]".toList, ?_, ?_⟩) ?_).2 fun z hz _ => hlast z hz
  · decide
  · decide
  · exact @respelled_type [' ', '\t'] [] (forall_mem_of_all (by decide)) nofun _ (by decide)

/-- A blank after the `=` of `Type`. -/
theorem type_with_blank :
    Respelled "[Desktop Entry]\nType=Application\n".toList "[Desktop Entry]\nType= Application\n".toList ∧
      (∃ e, parse "/x/a.desktop".toList "[Desktop Entry]\nType=Application\n".toList = .ok e) ∧
      ¬ SameMeaning "/x/a.desktop".toList "[Desktop Entry]\nType=Application\n".toList
        "[Desktop Entry]\nType= Application\n".toList := by
  refine ⟨@respelled_type [] [' '] nofun (forall_mem_of_all (by decide)) _ (by decide),
    (parse_ok_iff _ _).2 ⟨"[Desktop Entry]".toList, by decide, by decide⟩, ?_⟩
  rintro ⟨e, e', he, he', hsame, -⟩
  have htype := hsame "Type".toList none
  rw [get_parse he, get_parse he'] at htype
  revert htype
  decide

end DesktopEntry

end Wsmr
