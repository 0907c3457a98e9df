import Mathlib.Data.List.Induction
import Wsmr.App.Terminal
import Wsmr.Comp.Resolve
import Wsmr.Lib.Dedup

/-!
# Preferred terminals (`src/app/terminal.rs`)

The lines of `xdg-terminals.list` files are read one after the other. What is preferred, excluded and protected after
them is told by the lines alone, in whatever files and order they stand (`Preferred`); a step keeps this.
-/

namespace Wsmr

open Text Std

/-- The prefix of a line: `-`, none or `+`. -/
inductive Fallback where
  | exclude
  | prefer
  | protect
  deriving DecidableEq, Repr

/-- The variables of `read_terminal_lists`. -/
structure TerminalPrefs where
  explicit : List (Str × Option Str)
  excluded : ExtTreeSet Str
  protectedIds : ExtTreeSet Str

def TerminalPrefs.empty : TerminalPrefs := ⟨[], ∅, ∅⟩

def parseEntryRef (host : Host) (s : Str) : Option Str × Option Str :=
  match MainArg.parse host s with
  | .ok m => if m.entryId.isSome && m.path.isNone then (m.entryId, m.entryAction) else (none, none)
  | .error _ => (none, none)

/-- The prefix of a line, and what is left of it. -/
def splitFallback (line : Str) : Fallback × Str :=
  match stripPrefix "-".toList line with
  | some r => (.exclude, r)
  | none =>
    match stripPrefix "+".toList line with
    | some r => (.protect, r)
    | none => (.prefer, line)

/-- What a line refers to; blank lines, comments and what is no reference are passed over. -/
def lineRef (host : Host) (raw : Str) : Option (Fallback × Str × Option Str) :=
  let line := trim raw
  if line = [] || line.head? = some '#' then none
  else
    match splitFallback line with
    | (fb, rest) =>
      match parseEntryRef host rest with
      | (none, _) => none
      | (some id, action) => some (fb, id, action)

/-- The match of the loop. -/
def TerminalPrefs.apply (s : TerminalPrefs) : Fallback × Str × Option Str → TerminalPrefs
  | (.prefer, id, action) =>
    if s.explicit.contains (id, action) then s else { s with explicit := s.explicit ++ [(id, action)] }
  | (.exclude, id, action) =>
    if action = none ∧ id ∉ s.protectedIds then { s with excluded := s.excluded.insert id } else s
  | (.protect, id, action) =>
    if action = none then { s with protectedIds := s.protectedIds.insert id, excluded := s.excluded.erase id } else s

def applyLine (host : Host) (s : TerminalPrefs) (raw : Str) : TerminalPrefs := ((lineRef host raw).map s.apply).getD s

def parseTerminalList (host : Host) (s : TerminalPrefs) (content : Str) : TerminalPrefs :=
  (lines content).foldl (applyLine host) s

/-- `xdg::config_paths` -/
def Host.configPaths (host : Host) : List Str :=
  (match host.nonEmptyVar "XDG_CONFIG_HOME".toList with
    | some v => [v]
    | none => ((host.nonEmptyVar "HOME".toList).map (pathJoin · ".config".toList)).toList) ++
    (((host.nonEmptyVar "XDG_CONFIG_DIRS".toList).getD "/etc/xdg".toList).splitOn ':').filter (· ≠ [])

/-- The contents that are there, in the order in which they are read. -/
def terminalLists (host : Host) : List Str :=
  let files := ((((host.env "XDG_CURRENT_DESKTOP".toList).getD []).splitOn ':').filter (· ≠ [])).map
    (· ++ "-xdg-terminals.list".toList) ++ ["xdg-terminals.list".toList]
  let dirs := host.configPaths ++ host.dataDirs.map (pathJoin · "xdg-terminal-exec".toList)
  dirs.flatMap fun dir => files.filterMap fun f => host.readFile (pathJoin dir f)

def readTerminalLists (host : Host) : List (Str × Option Str) × ExtTreeSet Str :=
  let s := (terminalLists host).foldl (parseTerminalList host) .empty
  (s.explicit, s.excluded)

/-! ## What the lines tell -/

/-- A line that names an id, without an action. -/
def LineNames (host : Host) (fb : Fallback) (ls : List Str) (id : Str) : Prop :=
  ∃ l ∈ ls, lineRef host l = some (fb, id, none)

/-- The pair of an unprefixed line. -/
def preference (host : Host) (raw : Str) : Option (Str × Option Str) :=
  match lineRef host raw with
  | some (.prefer, p) => some p
  | _ => none

/-- The state after these lines. -/
structure Preferred (host : Host) (ls : List Str) (s : TerminalPrefs) : Prop where
  explicit : s.explicit = (ls.filterMap (preference host)).eraseDups
  excluded : ∀ id, id ∈ s.excluded ↔ LineNames host .exclude ls id ∧ ¬ LineNames host .protect ls id
  protectedIds : ∀ id, id ∈ s.protectedIds ↔ LineNames host .protect ls id

section
variable {host : Host} {ls : List Str} {s : TerminalPrefs} {l : Str}

theorem lineNames_append {fb : Fallback} {id : Str} :
    LineNames host fb (ls ++ [l]) id ↔ LineNames host fb ls id ∨ lineRef host l = some (fb, id, none) := by
  unfold LineNames
  simp only [List.mem_append, List.mem_singleton, or_and_right, exists_or, exists_eq_left]

theorem told_nil : Preferred host [] .empty where
  explicit := rfl
  excluded id := by simp [TerminalPrefs.empty, LineNames]
  protectedIds id := by simp [TerminalPrefs.empty, LineNames]

theorem explicit_of_none (h : Preferred host ls s) (hpref : preference host l = none) :
    s.explicit = ((ls ++ [l]).filterMap (preference host)).eraseDups := by
  rw [List.filterMap_append, List.filterMap_cons_none hpref, List.filterMap_nil, List.append_nil, h.explicit]

theorem explicit_of_some (h : Preferred host ls s) {p : Str × Option Str} (hpref : preference host l = some p) :
    (if s.explicit.contains p then s.explicit else s.explicit ++ [p]) =
      ((ls ++ [l]).filterMap (preference host)).eraseDups := by
  rw [List.filterMap_append, List.filterMap_cons_some hpref, List.filterMap_nil, Dedup.eraseDups_append_singleton,
    ← h.explicit]

/-- A line that names no id by itself leaves the sets as they are. -/
theorem sets_of_not_named (h : Preferred host ls s)
    (hnone : ∀ fb id, fb ≠ .prefer → lineRef host l ≠ some (fb, id, none))
    (id : Str) :
    (id ∈ s.excluded ↔ LineNames host .exclude (ls ++ [l]) id ∧ ¬ LineNames host .protect (ls ++ [l]) id) ∧
      (id ∈ s.protectedIds ↔ LineNames host .protect (ls ++ [l]) id) := by
  rw [lineNames_append, lineNames_append, or_iff_left (hnone .exclude id (by decide)),
    or_iff_left (hnone .protect id (by decide))]
  exact ⟨h.excluded id, h.protectedIds id⟩

theorem told_prefer (h : Preferred host ls s) {id : Str} {action : Option Str}
    (hl : lineRef host l = some (.prefer, id, action)) :
    Preferred host (ls ++ [l]) (s.apply (.prefer, id, action)) := by
  have hpref : preference host l = some (id, action) := by rw [preference, hl]
  have hsets := sets_of_not_named h fun fb id' hfb he => hfb (by rw [hl] at he; cases he; rfl)
  have happly : s.apply (.prefer, id, action) =
      { s with explicit := if s.explicit.contains (id, action) then s.explicit else s.explicit ++ [(id, action)] } := by
    rw [TerminalPrefs.apply]
    split <;> rfl
  rw [happly]
  exact ⟨explicit_of_some h hpref, fun id => (hsets id).1, fun id => (hsets id).2⟩

theorem told_exclude (h : Preferred host ls s) {id : Str} {action : Option Str}
    (hl : lineRef host l = some (.exclude, id, action)) :
    Preferred host (ls ++ [l]) (s.apply (.exclude, id, action)) := by
  have hexplicit := explicit_of_none h (l := l) (by rw [preference, hl])
  have hexcluded : ∀ id', LineNames host .exclude (ls ++ [l]) id' ↔
      LineNames host .exclude ls id' ∨ (id = id' ∧ action = none) := fun id' => by
    rw [lineNames_append, hl]
    simp
  have hprotected : ∀ id', LineNames host .protect (ls ++ [l]) id' ↔ LineNames host .protect ls id' := fun id' => by
    rw [lineNames_append, hl]
    simp
  rw [TerminalPrefs.apply]
  split
  · -- The id is excluded now: nothing protects it so far.
    rename_i hnow
    refine ⟨hexplicit, fun id' => ?_, fun id' => (h.protectedIds id').trans (hprotected id').symm⟩
    show id' ∈ s.excluded.insert id ↔ _
    rw [ExtTreeSet.mem_insert, Std.compare_eq_iff_eq, hexcluded, hprotected, h.excluded, and_iff_left hnow.1]
    have hfree : id = id' → ¬ LineNames host .protect ls id' := fun he => he ▸ (h.protectedIds id).not.1 hnow.2
    tauto
  · rename_i hnot
    refine ⟨hexplicit, fun id' => ?_, fun id' => (h.protectedIds id').trans (hprotected id').symm⟩
    rw [hexcluded, hprotected, h.excluded]
    have hbusy : id = id' ∧ action = none → LineNames host .protect ls id' := fun ⟨he, ha⟩ =>
      (h.protectedIds id').1 (not_not.1 fun hno => hnot ⟨ha, he ▸ hno⟩)
    tauto

theorem told_protect (h : Preferred host ls s) {id : Str} {action : Option Str}
    (hl : lineRef host l = some (.protect, id, action)) :
    Preferred host (ls ++ [l]) (s.apply (.protect, id, action)) := by
  have hexplicit := explicit_of_none h (l := l) (by rw [preference, hl])
  have hexcluded : ∀ id', LineNames host .exclude (ls ++ [l]) id' ↔ LineNames host .exclude ls id' := fun id' => by
    rw [lineNames_append, hl]
    simp
  have hprotected : ∀ id', LineNames host .protect (ls ++ [l]) id' ↔
      LineNames host .protect ls id' ∨ (id = id' ∧ action = none) := fun id' => by
    rw [lineNames_append, hl]
    simp
  rw [TerminalPrefs.apply]
  split
  · rename_i hnow
    refine ⟨hexplicit, fun id' => ?_, fun id' => ?_⟩
    · show id' ∈ s.excluded.erase id ↔ _
      rw [ExtTreeSet.mem_erase, ne_eq, Std.compare_eq_iff_eq, hexcluded, hprotected, h.excluded, and_iff_left hnow]
      tauto
    · show id' ∈ s.protectedIds.insert id ↔ _
      rw [ExtTreeSet.mem_insert, Std.compare_eq_iff_eq, hprotected, h.protectedIds, and_iff_left hnow]
      tauto
  · rename_i hnot
    refine ⟨hexplicit, fun id' => ?_, fun id' => ?_⟩
    · rw [hexcluded, hprotected, or_iff_left fun hc => hnot hc.2]
      exact h.excluded id'
    · rw [hprotected, or_iff_left fun hc => hnot hc.2]
      exact h.protectedIds id'

/-- **A line** adds what it tells. -/
theorem told_step (h : Preferred host ls s) (l : Str) : Preferred host (ls ++ [l]) (applyLine host s l) := by
  unfold applyLine
  cases hl : lineRef host l with
  | none =>
    have hsets := sets_of_not_named h fun fb id _ he => by rw [hl] at he; cases he
    exact ⟨explicit_of_none h (by rw [preference, hl]), fun id => (hsets id).1, fun id => (hsets id).2⟩
  | some p =>
    obtain ⟨fb, id, action⟩ := p
    cases fb with
    | prefer => exact told_prefer h hl
    | exclude => exact told_exclude h hl
    | protect => exact told_protect h hl

theorem told_lines (ls : List Str) : Preferred host ls (ls.foldl (applyLine host) .empty) := by
  induction ls using List.reverseRecOn with
  | nil => exact told_nil
  | append_singleton ls l ih =>
    rw [List.foldl_append]
    exact told_step ih l

/-- No id is excluded and protected. -/
theorem Preferred.disjoint (h : Preferred host ls s) (id : Str) : ¬ (id ∈ s.excluded ∧ id ∈ s.protectedIds) :=
  fun hboth => ((h.excluded id).1 hboth.1).2 ((h.protectedIds id).1 hboth.2)

end

/-! ## What a line says -/

/-- A text that is the id of an entry, perhaps with an action, but no path. -/
def IsEntryRef (host : Host) (text id : Str) (action : Option Str) : Prop :=
  ∃ executable, MainArg.parse host text = .ok ⟨some id, action, executable, none⟩

/-- A line, trimmed, that is not blank, a comment or prefixed. -/
def Unprefixed (line : Str) : Prop := ∃ c rest, line = c :: rest ∧ c ≠ '#' ∧ c ≠ '-' ∧ c ≠ '+'

/-- The prefix of a line, by its characters. -/
def Fallback.Marks (line text : Str) : Fallback → Prop
  | .exclude => line = '-' :: text
  | .prefer => line = text ∧ Unprefixed line
  | .protect => line = '+' :: text

section
variable {host : Host} {l : Str}

theorem parseEntryRef_eq_some {text id : Str} {action : Option Str} :
    parseEntryRef host text = (some id, action) ↔ IsEntryRef host text id action := by
  unfold parseEntryRef IsEntryRef
  cases MainArg.parse host text with
  | error e => simp
  | ok m =>
    obtain ⟨entryId, entryAction, executable, path⟩ := m
    cases entryId with
    | none => simp
    | some id' =>
      cases path with
      | none => simp
      | some p => simp

/-- A line that is neither blank nor a comment has one prefix, or none. -/
theorem marks_iff {line text : Str} (hblank : line ≠ []) (hcomment : line.head? ≠ some '#') {fb : Fallback} :
    fb.Marks line text ↔ splitFallback line = (fb, text) := by
  obtain ⟨c, rest, rfl⟩ := List.exists_cons_of_ne_nil hblank
  have hhash : c ≠ '#' := fun hc => hcomment (congrArg some hc)
  have hsplit : splitFallback (c :: rest) = if c = '-' then (.exclude, rest)
      else if c = '+' then (.protect, rest) else (.prefer, c :: rest) := by
    have hminus : stripPrefix "-".toList (c :: rest) = if c = '-' then some rest else none := stripPrefix_singleton
    have hplus : stripPrefix "+".toList (c :: rest) = if c = '+' then some rest else none := stripPrefix_singleton
    rw [splitFallback, hminus, hplus]
    by_cases h : c = '-' <;> by_cases h' : c = '+' <;> simp [h, h']
  rw [hsplit]
  by_cases hminus : c = '-'
  · subst hminus
    cases fb <;> simp [Fallback.Marks, Unprefixed]
  by_cases hplus : c = '+'
  · subst hplus
    cases fb <;> simp [Fallback.Marks, Unprefixed]
  · cases fb <;> simp [Fallback.Marks, Unprefixed, hhash, hminus, hplus]

theorem not_marks_of_skipped {line text : Str} (h : line = [] ∨ line.head? = some '#') (fb : Fallback) :
    ¬ fb.Marks line text := by
  rcases h with rfl | h
  · cases fb <;> simp [Fallback.Marks, Unprefixed]
  · obtain ⟨rest, rfl⟩ := List.head?_eq_some_iff.1 h
    cases fb <;> simp [Fallback.Marks, Unprefixed]

/-- **A line** is read by its characters: the first one is the prefix, and what is behind it the reference. -/
theorem lineRef_eq_some {fb : Fallback} {id : Str} {action : Option Str} : lineRef host l = some (fb, id, action) ↔
    ∃ text, fb.Marks (trim l) text ∧ IsEntryRef host text id action := by
  unfold lineRef
  dsimp only
  split
  · rename_i hskip
    simp only [Bool.or_eq_true, decide_eq_true_eq] at hskip
    exact iff_of_false nofun fun ⟨text, hmarks, _⟩ => not_marks_of_skipped hskip fb hmarks
  · rename_i hline
    simp only [Bool.or_eq_true, decide_eq_true_eq, not_or] at hline
    simp only [marks_iff hline.1 hline.2, ← parseEntryRef_eq_some]
    cases splitFallback (trim l) with
    | mk fb' rest =>
      dsimp only
      simp only [Prod.mk.injEq]
      cases href : parseEntryRef host rest with
      | mk id' action' =>
        cases id' with
        | none =>
          refine iff_of_false nofun ?_
          rintro ⟨text, ⟨-, rfl⟩, htext⟩
          rw [href] at htext
          cases htext
        | some id' =>
          constructor
          · intro h
            cases Option.some.inj h
            exact ⟨rest, ⟨rfl, rfl⟩, href⟩
          · rintro ⟨text, ⟨rfl, rfl⟩, htext⟩
            rw [href] at htext
            cases htext
            rfl

theorem preference_eq_some {id : Str} {action : Option Str} : preference host l = some (id, action) ↔
    Unprefixed (trim l) ∧ IsEntryRef host (trim l) id action := by
  have hprefer : preference host l = some (id, action) ↔ lineRef host l = some (.prefer, id, action) := by
    unfold preference
    split
    · rename_i hl
      simp [hl]
    · rename_i hno
      exact iff_of_false nofun fun hl => hno _ hl
  rw [hprefer, lineRef_eq_some]
  constructor
  · rintro ⟨text, ⟨rfl, hline⟩, href⟩
    exact ⟨hline, href⟩
  · exact fun ⟨hline, href⟩ => ⟨trim l, ⟨rfl, hline⟩, href⟩

theorem lineNames_iff {fb : Fallback} {ls : List Str} {id : Str} : LineNames host fb ls id ↔
    ∃ l ∈ ls, ∃ text, fb.Marks (trim l) text ∧ IsEntryRef host text id none := by
  unfold LineNames
  simp only [lineRef_eq_some]

end

theorem foldl_parseTerminalList (host : Host) : ∀ (contents : List Str) (s : TerminalPrefs),
    contents.foldl (parseTerminalList host) s = (contents.flatMap lines).foldl (applyLine host) s
  | [], _ => rfl
  | content :: contents, s => by
    rw [List.foldl_cons, foldl_parseTerminalList host contents, List.flatMap_cons, List.foldl_append]
    rfl

/-- **Preferred terminals** are told by the lines: what is excluded does not depend on their order, and what is
preferred not on the prefixed ones. A line without a reference changes nothing. -/
theorem terminal_lists_told (host : Host) (contents : List Str) :
    let ls := contents.flatMap lines
    let s := contents.foldl (parseTerminalList host) .empty
    (∀ before, before <+: ls → ∀ id, ¬ (id ∈ (before.foldl (applyLine host) .empty).excluded ∧
      id ∈ (before.foldl (applyLine host) .empty).protectedIds)) ∧
    s = ls.foldl (applyLine host) .empty ∧
    (∀ id, id ∈ s.excluded ↔
      (∃ l ∈ ls, ∃ text, trim l = '-' :: text ∧ IsEntryRef host text id none) ∧
        ¬ ∃ l ∈ ls, ∃ text, trim l = '+' :: text ∧ IsEntryRef host text id none) ∧
    (∀ l id action, preference host l = some (id, action) ↔
      Unprefixed (trim l) ∧ IsEntryRef host (trim l) id action) ∧
    s.explicit = (ls.filterMap (preference host)).eraseDups ∧
    ∀ (s : TerminalPrefs) (l : Str), trim l = [] ∨ (trim l).head? = some '#' ∨
      (∀ text, trim l = '-' :: text ∨ trim l = '+' :: text ∨ trim l = text ∧ Unprefixed (trim l) →
        ∀ id action, ¬ IsEntryRef host text id action) →
      applyLine host s l = s := by
  dsimp only
  rw [foldl_parseTerminalList]
  have htold := @told_lines host (contents.flatMap lines)
  refine ⟨fun before _ id => (told_lines before).disjoint id, rfl, fun id => ?_, fun l id action => preference_eq_some,
    htold.explicit, fun s l h => ?_⟩
  · rw [htold.excluded, lineNames_iff, lineNames_iff]
    rfl
  · have hnone : lineRef host l = none := Option.eq_none_iff_forall_ne_some.2 fun ⟨fb, id, action⟩ hl => by
      obtain ⟨text, hmarks, href⟩ := lineRef_eq_some.1 hl
      have hline := (h.resolve_left fun h => not_marks_of_skipped (Or.inl h) fb hmarks).resolve_left
        fun h => not_marks_of_skipped (Or.inr h) fb hmarks
      cases fb with
      | exclude => exact hline text (Or.inl hmarks) id action href
      | prefer => exact hline text (Or.inr (Or.inr hmarks)) id action href
      | protect => exact hline text (Or.inr (Or.inl hmarks)) id action href
    rw [applyLine, hnone]
    rfl

/-- What the files of a host exclude. -/
theorem mem_readTerminalLists (host : Host) (id : Str) : id ∈ (readTerminalLists host).2 ↔
    LineNames host .exclude ((terminalLists host).flatMap lines) id ∧
      ¬ LineNames host .protect ((terminalLists host).flatMap lines) id := by
  unfold readTerminalLists
  dsimp only
  rw [foldl_parseTerminalList]
  exact (told_lines _).excluded id

end Wsmr
