import Wsmr.Lib.TreeMap
import Wsmr.Units.Rung
import Std.Data.ExtTreeMap

/-!
# The ownership manifest (`src/units/manifest.rs`)

For every path wsmr has written, the fingerprint of what it wrote. The file is a comment and one line
`<16 hex digits> <path>` for each; it is read back as it was (`parse_render`), also with other lines in
between, as long as these are not of the form `<hex> <name>` or `+<hex> <name>` (`parse_of_sublist`).
-/

namespace Wsmr

open Text Std Effects

def manifestName : Str := ".wsmr-generation".toList

/-- 64-bit FNV-1a over the UTF-8 bytes. -/
def fingerprint (content : Str) : UInt64 :=
  (utf8 content).foldl (fun hash byte => (hash ^^^ byte.toUInt64) * 0x00000100000001b3) 0xcbf29ce484222325

structure Manifest where
  entries : ExtTreeMap Str UInt64

namespace Manifest

def default : Manifest := ⟨∅⟩

/-- `relname` is tracked with the fingerprint of `content`. -/
def verify (m : Manifest) (relname content : Str) : Bool := m.entries[relname]? == some (fingerprint content)

def record (m : Manifest) (relname content : Str) : Manifest := ⟨m.entries.insert relname (fingerprint content)⟩

def forget (m : Manifest) (relname : Str) : Manifest := ⟨m.entries.erase relname⟩

/-- The tracked paths, in order. -/
def tracked (m : Manifest) : List Str := m.entries.keys

/-! ## The file -/

def parseLine (line : Str) : Option (Str × UInt64) :=
  if line.head? = some '#' then none
  else (splitOnce ' ' line).bind fun p =>
    if p.2 = [] then none else (parseUnsigned 16 (2 ^ 64) p.1).map fun n => (p.2, UInt64.ofNat n)

def parse (s : Str) : Manifest :=
  ⟨((lines s).filterMap parseLine).foldl (fun entries p => entries.insert p.1 p.2) ∅⟩

def comment : Str := "# wsmr-generated manifest — machine-written, do not edit".toList

def line (p : Str × UInt64) : Str := hexPadded 16 p.2.toNat ++ ' ' :: p.1

def render (m : Manifest) : Str := unlines (comment :: m.entries.toList.map line)

def load (dir : Rung) : Except Error Manifest := do
  let text ← dir.readToString manifestName
  return text.elim default parse

def save (m : Manifest) (path : Str) : FsIo Unit :=
  Prog.op (S := fsOps) (.put false manifestName (some m.render)) fun ok =>
    .ret (if ok then .ok () else .error (.io (joinPath path manifestName)))

/-! ## What is read back -/

/-- Every tracked path has one line of its own. -/
def OneLine (m : Manifest) : Prop := ∀ k : Str, k ∈ m.entries → k ≠ [] ∧ '\n' ∉ k

/-- A path that its line gives back. -/
def Storable (k : Str) : Prop := k ≠ [] ∧ '\n' ∉ k ∧ k.getLast? ≠ some '\r'

theorem stripCr_line {k : Str} {fp : UInt64} (h : k ≠ []) : stripCr (line (k, fp)) = line (stripCr k, fp) := by
  have hlast : (line (k, fp)).getLast? = k.getLast? := by
    rw [line, List.getLast?_append_cons, List.getLast?_cons_of_ne_nil h]
  unfold stripCr
  rw [hlast]
  split
  · simp [line, List.dropLast_cons_of_ne_nil h]
  · rfl

theorem not_mem_hexPadded {c : Char} (h : ∀ d < 16, c ≠ hexDigit d) (w n : Nat) : c ∉ hexPadded w n := fun hc => by
  obtain ⟨d, hd, rfl⟩ := eq_hexDigit_of_mem_hexPadded hc
  exact h d hd rfl

theorem parseLine_line (p : Str × UInt64) : parseLine (line p) = if p.1 = [] then none else some p := by
  have hhead : (line p).head? ≠ some '#' := by
    have hne : hexPadded 16 p.2.toNat ≠ [] := fun e => by simpa [e] using length_hexPadded 16 p.2.toNat
    rw [line, List.head?_append_of_ne_nil _ hne]
    exact fun e => not_mem_hexPadded (by decide) _ _ (List.mem_of_head? e)
  have hsplit : splitOnce ' ' (line p) = some (hexPadded 16 p.2.toNat, p.1) :=
    splitOnce_append _ (not_mem_hexPadded (by decide) _ _)
  have hfp : p.2.toNat < 2 ^ 64 := p.2.toNat_lt
  rw [parseLine, if_neg hhead, hsplit, Option.bind_some,
    parseUnsigned_hexPadded (by decide) (Nat.lt_of_lt_of_eq hfp (by decide)) hfp]
  simp

theorem newline_not_mem_line {p : Str × UInt64} (h : '\n' ∉ p.1) : '\n' ∉ line p := by
  have := not_mem_hexPadded (c := '\n') (by decide) 16 p.2.toNat
  simp [line, this, h]

theorem newline_not_mem_comment : '\n' ∉ comment := by decide

theorem parseLine_comment : parseLine (stripCr comment) = none := by decide

theorem newline_not_mem_rendered {m : Manifest} (h : m.OneLine) :
    ∀ l ∈ comment :: m.entries.toList.map line, '\n' ∉ l := by
  intro l hl
  rcases List.mem_cons.1 hl with rfl | hl
  · exact newline_not_mem_comment
  · obtain ⟨p, hp, rfl⟩ := List.mem_map.1 hl
    exact newline_not_mem_line (h p.1 (TreeMap.mem_of_mem_toList hp)).2

/-- What the lines of a manifest say: a carriage return at the end of a path is lost. -/
theorem filterMap_parseLine_lines {m : Manifest} (h : m.OneLine) : (lines m.render).filterMap parseLine =
    m.entries.toList.filterMap fun p => if stripCr p.1 = [] then none else some (stripCr p.1, p.2) := by
  have hkey : ∀ p ∈ m.entries.toList, p.1 ≠ [] ∧ '\n' ∉ p.1 := fun p hp =>
    h p.1 (TreeMap.mem_of_mem_toList hp)
  rw [render, lines_unlines (newline_not_mem_rendered h), List.map_cons,
    List.filterMap_cons_none parseLine_comment, List.map_map, List.filterMap_map]
  refine List.filterMap_congr fun p hp => ?_
  rw [Function.comp_apply, Function.comp_apply, stripCr_line (hkey p hp).1, parseLine_line]

theorem mem_of_getElem?_parse {s k : Str} {fp : UInt64} (h : (parse s).entries[k]? = some fp) :
    (k, fp) ∈ (lines s).filterMap parseLine :=
  (TreeMap.mem_of_getElem?_foldl_insert h).resolve_right (by simp)

/-- Whatever is read back was recorded, up to a lost carriage return. -/
theorem of_getElem?_parse_render {m : Manifest} (h : m.OneLine) {k : Str} {fp : UInt64}
    (hk : (parse m.render).entries[k]? = some fp) :
    m.entries[k]? = some fp ∨ m.entries[k ++ ['\r']]? = some fp := by
  have hmem := mem_of_getElem?_parse hk
  rw [filterMap_parseLine_lines h] at hmem
  obtain ⟨⟨k', fp'⟩, hp, he⟩ := List.mem_filterMap.1 hmem
  split at he
  · cases he
  · obtain ⟨rfl, rfl⟩ := Prod.mk.inj (Option.some.inj he)
    have hget := ExtTreeMap.mem_toList_iff_getElem?_eq_some.1 hp
    rcases stripCr_eq_iff.1 (rfl : stripCr k' = stripCr k') with e | ⟨e, _⟩
    · exact Or.inr (e ▸ hget)
    · exact Or.inl (e ▸ hget)

/-- A path that ends in a carriage return is read back without it. -/
theorem getElem?_parse_render_cr {m : Manifest} (h : m.OneLine) {k : Str} {fp : UInt64} (hk : k ≠ [])
    (hnone : m.entries[k]? = none) (hcr : m.entries[k ++ ['\r']]? = some fp) :
    (parse m.render).entries[k]? = some fp := by
  unfold parse
  rw [filterMap_parseLine_lines h]
  refine TreeMap.getElem?_foldl_insert_of_forall (fun p hp he => ?_) (Or.inl ⟨(k, fp), ?_, rfl⟩)
  · obtain ⟨⟨k', fp'⟩, hp', hs⟩ := List.mem_filterMap.1 hp
    have hget := ExtTreeMap.mem_toList_iff_getElem?_eq_some.1 hp'
    split at hs
    · cases hs
    · obtain rfl := Option.some.inj hs
      rcases stripCr_eq_iff.1 he with rfl | ⟨rfl, -⟩
      · exact Option.some.inj (hget.symm.trans hcr)
      · rw [hnone] at hget
        cases hget
  · refine List.mem_filterMap.2 ⟨(k ++ ['\r'], fp), ExtTreeMap.mem_toList_iff_getElem?_eq_some.2 hcr, ?_⟩
    simp [stripCr_append_cr, hk]

theorem stripCr_of_storable {k : Str} (h : Storable k) : stripCr k = k :=
  stripCr_eq_iff.2 (Or.inr ⟨rfl, h.2.2⟩)

/-- A manifest that has been read has one line for each path. -/
theorem oneLine_parse (s : Str) : (parse s).OneLine := by
  intro k hk
  obtain ⟨fp, hfp⟩ := Option.isSome_iff_exists.1 (ExtTreeMap.mem_iff_isSome_getElem?.1 hk)
  obtain ⟨l, hl, hp⟩ := List.mem_filterMap.1 (mem_of_getElem?_parse hfp)
  unfold parseLine at hp
  split at hp
  · cases hp
  · obtain ⟨⟨hash, relname⟩, hsplit, hp⟩ := Option.bind_eq_some_iff.1 hp
    split at hp
    · cases hp
    · rename_i hne
      obtain ⟨n, _, hn⟩ := Option.map_eq_some_iff.1 hp
      obtain ⟨rfl, _⟩ := Prod.mk.inj hn
      obtain ⟨rfl, _⟩ := splitOnce_eq_some hsplit
      exact ⟨hne, fun hc => Text.newline_not_mem_line hl (by simp [hc])⟩

/-! ## Lines that are no entries -/

/-- Hexadecimal digits. -/
def Hex (h : Str) : Prop := h ≠ [] ∧ ∀ c ∈ h, '0' ≤ c ∧ c ≤ '9' ∨ 'a' ≤ c ∧ c ≤ 'f' ∨ 'A' ≤ c ∧ c ≤ 'F'

/-- `<hex> <name>` -/
def HexLine (l : Str) : Prop := ∃ hex name, Hex hex ∧ name ≠ [] ∧ l = hex ++ ' ' :: name

/-- `<hex> <name>` or `+<hex> <name>`: the numbers of `from_str_radix` may have a sign. -/
def SignedHexLine (l : Str) : Prop := HexLine l ∨ ∃ l', HexLine l' ∧ l = '+' :: l'

theorem signedHexLine_of_parseLine {l : Str} {p : Str × UInt64} (h : parseLine l = some p) : SignedHexLine l := by
  unfold parseLine at h
  split at h
  · cases h
  obtain ⟨⟨hash, name⟩, hsplit, h⟩ := Option.bind_eq_some_iff.1 h
  split at h
  · cases h
  · rename_i hne
    obtain ⟨n, hn, -⟩ := Option.map_eq_some_iff.1 h
    obtain ⟨hex, hhash, hnil, hdigits⟩ := digits_of_parseUnsigned hn
    have hhex : Hex hex := ⟨hnil, fun c hc => (hdigits c hc).elim fun _ => hexDigit_of_digitVal⟩
    obtain ⟨rfl, -⟩ := splitOnce_eq_some hsplit
    rcases hhash with rfl | rfl
    · exact Or.inl ⟨_, name, hhex, hne, rfl⟩
    · exact Or.inr ⟨_, ⟨hex, name, hhex, hne, rfl⟩, rfl⟩

/-- A carriage return is part of the name. -/
theorem HexLine.append_cr {l : Str} (h : HexLine l) : HexLine (l ++ ['\r']) := by
  obtain ⟨hex, name, hhex, hne, rfl⟩ := h
  exact ⟨hex, name ++ ['\r'], hhex, by simp, by simp⟩

theorem signedHexLine_of_stripCr {l : Str} (h : SignedHexLine (stripCr l)) : SignedHexLine l := by
  rcases stripCr_eq_iff.1 (rfl : stripCr l = stripCr l) with hl | ⟨hl, -⟩
  · rw [hl]
    rcases h with h | ⟨l', h, he⟩
    · exact Or.inl h.append_cr
    · exact Or.inr ⟨l' ++ ['\r'], h.append_cr, by rw [he, List.cons_append]⟩
  · rw [hl]
    exact h

theorem parseLine_stripCr_eq_none {l : Str} (h : ¬ SignedHexLine l) : parseLine (stripCr l) = none := by
  cases hp : parseLine (stripCr l) with
  | none => rfl
  | some p => exact absurd (signedHexLine_of_stripCr (signedHexLine_of_parseLine hp)) h

theorem not_hexLine_of_head {c : Char} (h : ¬ ('0' ≤ c ∧ c ≤ '9' ∨ 'a' ≤ c ∧ c ≤ 'f' ∨ 'A' ≤ c ∧ c ≤ 'F'))
    (l : Str) : ¬ HexLine (c :: l) := by
  rintro ⟨hex, name, ⟨hne, hdigits⟩, -, he⟩
  cases hex with
  | nil => exact hne rfl
  | cons d hex =>
    obtain ⟨rfl, -⟩ := List.cons.inj he
    exact h (hdigits c List.mem_cons_self)

theorem not_signedHexLine_comment : ¬ SignedHexLine comment := by
  have hcomment : comment = '#' :: comment.tail := by decide
  rintro (h | ⟨l, -, he⟩)
  · rw [hcomment] at h
    exact not_hexLine_of_head (by decide) _ h
  · rw [hcomment] at he
    exact absurd (List.cons.inj he).1 (by decide)

theorem not_signedHexLine_nil : ¬ SignedHexLine [] := by
  rintro (⟨hex, name, -, -, he⟩ | ⟨l, -, he⟩)
  · simp at he
  · cases he

/-- A text with the pairs of a manifest, in any order and number. -/
theorem parse_eq {m : Manifest} {text : Str}
    (h : ∀ p, p ∈ (lines text).filterMap parseLine ↔ p ∈ m.entries.toList) : parse text = m := by
  refine congrArg Manifest.mk (ExtTreeMap.ext_getElem? fun k => ?_)
  cases hk : m.entries[k]? with
  | none =>
    rw [← Option.not_isSome_iff_eq_none, Option.isSome_iff_exists]
    rintro ⟨fp, hfp⟩
    have hmem := (h _).1 (mem_of_getElem?_parse hfp)
    rw [ExtTreeMap.mem_toList_iff_getElem?_eq_some, hk] at hmem
    cases hmem
  | some fp =>
    have hmem : (k, fp) ∈ (lines text).filterMap parseLine :=
      (h (k, fp)).2 (ExtTreeMap.mem_toList_iff_getElem?_eq_some.2 hk)
    have hsame : ∀ p ∈ (lines text).filterMap parseLine, p.1 = k → p.2 = fp := fun p hp he => by
      have hget := ExtTreeMap.mem_toList_iff_getElem?_eq_some.1 ((h p).1 hp)
      rw [he, hk] at hget
      exact (Option.some.inj hget).symm
    exact TreeMap.getElem?_foldl_insert_of_forall hsame (Or.inl ⟨(k, fp), hmem, rfl⟩)

theorem parseLine_of_storable {p : Str × UInt64} (h : Storable p.1) : parseLine (stripCr (line p)) = some p := by
  rw [stripCr_line h.1, stripCr_of_storable h, parseLine_line, if_neg h.1]

/-- A text that is one malformed line, or nothing. -/
theorem filterMap_parseLine_unterminated {s : Str} (hnl : '\n' ∉ s) (h : ¬ SignedHexLine s) :
    (lines s).filterMap parseLine = [] := by
  refine List.filterMap_eq_nil_iff.2 fun l hl => ?_
  have hsplit : lines s = linesOf [s] := by rw [lines, List.splitOn_eq_singleton hnl]
  rw [hsplit, linesOf] at hl
  split at hl
  · cases hl
  · rw [List.mem_singleton.1 hl, ← Option.not_isSome_iff_eq_none, Option.isSome_iff_exists]
    rintro ⟨_, hp⟩
    exact h (signedHexLine_of_parseLine hp)

/-- The entries of a manifest survive malformed lines anywhere between theirs, also an unterminated one at the end. -/
theorem parse_of_sublist {m : Manifest} (h : ∀ k ∈ m.entries, Storable k) {ls : List Str} {last : Str}
    (hnl : ∀ l ∈ ls, '\n' ∉ l) (hnl' : '\n' ∉ last) (hsub : (comment :: m.entries.toList.map line).Sublist ls)
    (hrest : ∀ l ∈ ls, l ∈ comment :: m.entries.toList.map line ∨ ¬ SignedHexLine l) (hlast : ¬ SignedHexLine last) :
    parse (unlines ls ++ last) = m := by
  have hread : ∀ p ∈ m.entries.toList, parseLine (stripCr (line p)) = some p := fun p hp =>
    parseLine_of_storable (h p.1 (TreeMap.mem_of_mem_toList hp))
  have hpairs : ∀ p, p ∈ (lines (unlines ls ++ last)).filterMap parseLine ↔ p ∈ m.entries.toList := fun p => by
    rw [lines_unlines_append last hnl, List.filterMap_append, filterMap_parseLine_unterminated hnl' hlast,
      List.append_nil, List.filterMap_map, List.mem_filterMap]
    constructor
    · rintro ⟨l, hl, hp⟩
      have hnone : ¬ SignedHexLine l → p ∈ m.entries.toList := fun hbad => by
        rw [Function.comp_apply, parseLine_stripCr_eq_none hbad] at hp
        cases hp
      rcases hrest l hl with hl | hbad
      · rcases List.mem_cons.1 hl with rfl | hl
        · exact hnone not_signedHexLine_comment
        · obtain ⟨q, hq, rfl⟩ := List.mem_map.1 hl
          rw [Function.comp_apply, hread q hq] at hp
          exact Option.some.inj hp ▸ hq
      · exact hnone hbad
    · intro hp
      have hline : line p ∈ m.entries.toList.map line := List.mem_map_of_mem hp
      exact ⟨line p, hsub.subset (List.mem_cons_of_mem _ hline), by rw [Function.comp_apply, hread p hp]⟩
  exact parse_eq hpairs

/-- **Manifest round trip.** -/
theorem parse_render {m : Manifest} (h : ∀ k ∈ m.entries, Storable k) : parse m.render = m := by
  have hnl := newline_not_mem_rendered fun k hk => ⟨(h k hk).1, (h k hk).2.1⟩
  have hparse := parse_of_sublist h hnl List.not_mem_nil (List.Sublist.refl _) (fun _ hl => Or.inl hl)
    not_signedHexLine_nil
  rwa [List.append_nil] at hparse

end Manifest

/-- **A manifest** is read back as it was, whatever lines without an entry are put between its own. -/
theorem manifest_round_trip :
    (∀ m : Manifest, (∀ k ∈ m.entries, Manifest.Storable k) → Manifest.parse m.render = m) ∧
    ∀ m : Manifest, (∀ k ∈ m.entries, Manifest.Storable k) → ∀ (ls : List Str) (last : Str),
      (∀ l ∈ ls, '\n' ∉ l) → '\n' ∉ last → (Manifest.comment :: m.entries.toList.map Manifest.line).Sublist ls →
      (∀ l ∈ ls, l ∈ Manifest.comment :: m.entries.toList.map Manifest.line ∨ ¬ Manifest.SignedHexLine l) →
      ¬ Manifest.SignedHexLine last → Manifest.parse (unlines ls ++ last) = m :=
  ⟨fun _ h => Manifest.parse_render h, fun _ h _ _ hnl hnl' hsub hrest hlast =>
    Manifest.parse_of_sublist h hnl hnl' hsub hrest hlast⟩

/-- `+1 x` is read as an entry, though it is no `<hex> <name>`. -/
theorem signed_line_read : ¬ ∀ m : Manifest, (∀ k ∈ m.entries, Manifest.Storable k) →
    ∀ (ls : List Str) (last : Str), (∀ l ∈ ls, '\n' ∉ l) → '\n' ∉ last →
      (Manifest.comment :: m.entries.toList.map Manifest.line).Sublist ls →
      (∀ l ∈ ls, l ∈ Manifest.comment :: m.entries.toList.map Manifest.line ∨ ¬ Manifest.HexLine l) →
      ¬ Manifest.HexLine last → Manifest.parse (unlines ls ++ last) = m := by
  intro h
  have hsigned : ¬ Manifest.HexLine "+1 x".toList := Manifest.not_hexLine_of_head (by decide) "1 x".toList
  have hlast : ¬ Manifest.HexLine [] := fun he => Manifest.not_signedHexLine_nil (Or.inl he)
  have heq := h .default (fun k hk => absurd hk (by simp [Manifest.default])) [Manifest.comment, "+1 x".toList] []
    (by decide) (by decide) (by simp [Manifest.default]) (fun l hl => ?_) hlast
  · have hread : (Manifest.parse (unlines [Manifest.comment, "+1 x".toList])).entries["x".toList]? = some 1 := by
      decide
    rw [List.append_nil] at heq
    rw [heq] at hread
    simp [Manifest.default] at hread
  · rcases List.mem_pair.1 hl with rfl | rfl
    · exact Or.inl List.mem_cons_self
    · exact Or.inr hsigned

end Wsmr
