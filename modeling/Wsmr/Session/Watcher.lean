import Wsmr.Session.Reresolve
import Wsmr.Units.Unescape

/-!
# The unit that is watched (`src/session/exec.rs`)

`aux exec` resolves the compositor from the words of its unit, and hands the id it gets to
`aux readiness`, which resolves once more and names the unit to watch by the result.
-/

namespace Wsmr

open Text

def watchedUnit (comp : CompGlobals) : Str := "wayland-wm@".toList ++ comp.idUnitString ++ ".service".toList

/-- What the watcher of the unit of `comp` resolves; the id is handed over as one word. -/
def watcher (host : Host) (xdg : Str) (comp : CompGlobals) (binPath : Str) : Option (Except Error CompGlobals) :=
  (runAux host xdg (execWords comp binPath)).map fun executed => do
    resolveAux host xdg ⟨none, false, none, none, (← executed).id, []⟩

def WatchesOwnUnit (host : Host) (xdg : Str) (comp : CompGlobals) (binPath : Str) : Prop :=
  ∃ watching, watcher host xdg comp binPath = some (.ok watching) ∧ watchedUnit watching = watchedUnit comp

/-- An executable, or an entry that is found by its id alone; an absolute program of it has to stand for
the same entry. -/
def UnitSurvives (host : Host) (arg0 : Str) (comp : CompGlobals) : Prop :=
  isEntryArg arg0 = true → (∃ words, FoundById host comp.id words) ∧
    (isAbsolute comp.program = true → ∃ m, meaning host comp.program = .ok m ∧ m.id = comp.id)

section
variable {host : Host} {xdg binPath : Str} {comp comp' : CompGlobals} {input : ResolveInput} {m m' : Meaning}

/-! ## Two resolutions -/

/-- An id stands for itself. -/
theorem id_of_meaning_id {arg : Str} (h : meaning host arg = .ok m) (h' : meaning host m.id = .ok m') :
    m'.id = m.id := by
  cases harg : isEntryArg arg with
  | false =>
    obtain ⟨-, rfl⟩ := (meaning_executable harg).1 h
    obtain ⟨-, rfl⟩ := (meaning_executable (not_entry_fileBasename harg)).1 h'
    exact fileBasename_fileBasename arg
  | true =>
    obtain ⟨hsuffix, hcolon, hslash⟩ := meaning_id harg h
    have hparse := parse_id host hsuffix hcolon hslash
    cases hid : isEntryId m.id with
    | true =>
      rw [hid] at hparse
      exact ((meaning_entry hparse rfl).1 h').1.symm
    | false =>
      rw [hid] at hparse
      rw [meaning, hparse] at h'
      cases h'

theorem watcher_eq {m : Meaning} (h : meaning host (unitWord comp) = .ok m) :
    watcher host xdg comp binPath =
      some ((meaning host m.id).map (compOf ⟨[m.id], [], false, none, none, splitColon xdg⟩)) := by
  unfold watcher
  rw [runAux_exec, h, Option.map_some]
  refine congrArg some ?_
  show resolveAux host xdg ⟨none, false, none, none, m.id, []⟩ = _
  exact resolve_eq _ rfl

theorem watcher_error {e : Error} (h : meaning host (unitWord comp) = .error e) :
    watcher host xdg comp binPath = some (.error e) := by
  unfold watcher
  rw [runAux_exec, h]
  rfl

theorem watchedUnit_inj (hunit : comp.idUnitString = simpleSystemdEscape comp.id false)
    (hunit' : comp'.idUnitString = simpleSystemdEscape comp'.id false) :
    watchedUnit comp' = watchedUnit comp ↔ comp'.id = comp.id := by
  unfold watchedUnit
  rw [List.append_cancel_right_eq, List.append_cancel_left_eq, hunit, hunit']
  exact ⟨escape_inj, fun he => by rw [he]⟩

theorem watchesOwnUnit_iff (hunit : comp.idUnitString = simpleSystemdEscape comp.id false) :
    WatchesOwnUnit host xdg comp binPath ↔ (∃ m, meaning host (unitWord comp) = .ok m ∧ m.id = comp.id) ∧
      ∃ m, meaning host comp.id = .ok m := by
  unfold WatchesOwnUnit
  cases hm : meaning host (unitWord comp) with
  | error e =>
    rw [watcher_error hm]
    exact iff_of_false (by rintro ⟨_, h, -⟩; cases h) (by rintro ⟨⟨_, h, -⟩, -⟩; cases h)
  | ok m =>
    rw [watcher_eq hm]
    constructor
    · rintro ⟨watching, hwatch, hsame⟩
      cases hm' : meaning host m.id with
      | error e => rw [hm'] at hwatch; cases hwatch
      | ok m' =>
        rw [hm'] at hwatch
        obtain rfl := Except.ok.inj (Option.some.inj hwatch)
        have heq := (watchedUnit_inj hunit rfl).1 hsame
        have hself : m.id = comp.id := (id_of_meaning_id hm hm').symm.trans heq
        exact ⟨⟨m, rfl, hself⟩, m', hself ▸ hm'⟩
    · rintro ⟨⟨m₂, h, hself⟩, m', hm'⟩
      obtain rfl := Except.ok.inj h
      rw [hself, hm']
      refine ⟨_, rfl, (watchedUnit_inj hunit rfl).2 ?_⟩
      exact (id_of_meaning_id hm (hself ▸ hm')).trans hself

/-! ## Hardcoded programs -/

/-- A part without `'/'`, and with `':'`, is in the last component when there is none in front of it. -/
theorem infix_last {part a b : Str} (hslash : '/' ∉ part) (hcolon : ':' ∈ part) (ha : ':' ∉ a)
    (h : part <:+: a ++ '/' :: b) : part <:+: b := by
  obtain ⟨s, t, hst⟩ := h
  rw [List.append_assoc] at hst
  rcases List.append_eq_append_iff.1 hst with ⟨x, rfl, hpart⟩ | ⟨x, rfl, hlast⟩
  · exfalso
    have hx : ':' ∉ x := fun hm => ha (List.mem_append_right _ hm)
    rcases List.append_eq_append_iff.1 hpart with ⟨y, rfl, -⟩ | ⟨y, rfl, hy⟩
    · exact hx (List.mem_append_left _ hcolon)
    · cases y with
      | nil => exact hx (by simpa using hcolon)
      | cons d y =>
        obtain ⟨rfl, -⟩ := List.cons.inj hy
        exact hslash (by simp)
  · cases x with
    | nil =>
      exfalso
      cases part with
      | nil => cases hcolon
      | cons d part =>
        obtain ⟨rfl, -⟩ := List.cons.inj hlast
        exact hslash List.mem_cons_self
    | cons d x =>
      obtain ⟨-, rfl⟩ := List.cons.inj hlast
      exact ⟨x, t, by simp⟩

theorem pathJoin_spec (base rel : Str) :
    pathJoin base rel = rel ∨ ∃ parent, parent <+: base ∧ pathJoin base rel = parent ++ '/' :: rel := by
  have hroot : "/".toList = ['/'] := by decide
  unfold pathJoin
  rw [hroot]
  split
  · exact Or.inl rfl
  split
  · rename_i hsuffix
    obtain ⟨parent, rfl⟩ := hsuffix
    exact Or.inr ⟨parent, List.prefix_append _ _, by simp⟩
  · exact Or.inr ⟨base, List.prefix_rfl, rfl⟩

/-- A program found on `$PATH` has the name that was looked up. -/
theorem which_spec {cmd path : Str} (harg : isEntryArg cmd = false) (h : host.which cmd = some path) :
    isEntryArg path = false ∧ fileBasename path = fileBasename cmd := by
  unfold Host.which at h
  split at h
  · cases h
  split at h
  · split at h
    · obtain rfl := Option.some.inj h
      exact ⟨harg, rfl⟩
    · cases h
  · obtain ⟨dirs, -, hfind⟩ := Option.bind_eq_some_iff.1 h
    obtain ⟨dir, hdir, rfl⟩ := List.mem_map.1 (List.mem_of_find?_eq_some hfind)
    have hcolon : ':' ∉ dir := not_mem_of_mem_splitOn hdir
    rcases pathJoin_spec dir cmd with he | ⟨parent, hparent, he⟩
    · exact ⟨by rw [he, harg], by rw [he]⟩
    · have hbase : fileBasename (pathJoin dir cmd) = fileBasename cmd := by rw [he, fileBasename_append]
      refine ⟨?_, hbase⟩
      rw [← Bool.not_eq_true, isEntryArg_iff, not_or] at harg ⊢
      constructor
      · intro hs
        have hlast := suffix_fileBasename_of_suffix (by decide) hs
        rw [hbase] at hlast
        exact harg.1 (hlast.trans (suffix_fileBasename cmd))
      · intro hin
        rw [he] at hin
        exact harg.2 (infix_last (by decide) (by decide) (fun hm => hcolon (hparent.subset hm)) hin)

/-- `-F` changes the program only. -/
theorem applyHardcode_ok {hardcode : Bool} (h : applyHardcode host comp hardcode = .ok comp') :
    comp'.id = comp.id ∧ comp'.idUnitString = comp.idUnitString ∧
      (comp'.program = comp.program ∨ host.which comp.program = some comp'.program) := by
  unfold applyHardcode at h
  split at h
  · obtain rfl := Except.ok.inj h
    exact ⟨rfl, rfl, Or.inl rfl⟩
  split at h
  · obtain rfl := Except.ok.inj h
    exact ⟨rfl, rfl, Or.inl rfl⟩
  · rename_i first rest hcmd
    split at h
    · obtain rfl := Except.ok.inj h
      exact ⟨rfl, rfl, Or.inl rfl⟩
    split at h
    · rename_i resolved hwhich
      obtain rfl := Except.ok.inj h
      refine ⟨rfl, rfl, Or.inr ?_⟩
      rw [CompGlobals.program, hcmd]
      exact hwhich
    · cases h

/-! ## The watched unit -/

/-- **The watcher** of a unit watches that unit exactly in these cases. -/
theorem watches_own_unit_iff {hardcode : Bool} (h : resolve host input = .ok comp)
    (hhard : applyHardcode host comp hardcode = .ok comp') :
    WatchesOwnUnit host xdg comp' binPath ↔ UnitSurvives host (input.wmCmdline.headD []) comp' := by
  obtain ⟨m, hm, rfl, hne⟩ := exists_meaning h
  obtain ⟨hid, hunit, hprogram⟩ := applyHardcode_ok hhard
  have hself : comp'.id = m.id := hid
  rw [watchesOwnUnit_iff (by rw [hunit, hself]; rfl)]
  unfold UnitSurvives
  generalize input.wmCmdline.headD [] = arg0 at hm
  cases harg : isEntryArg arg0 with
  | true =>
    obtain ⟨hsuffix, hcolon, hslash⟩ := meaning_id harg hm
    have hwm := wmId_of_meaning hm
    rw [← hself] at hsuffix hcolon hslash hwm
    have hfound : (∃ m, meaning host comp'.id = .ok m) ↔ ∃ words, FoundById host comp'.id words := by
      constructor
      · rintro ⟨m', hm'⟩
        exact ⟨m'.words, (meaning_entryId hsuffix hcolon hslash hwm _).1 ⟨m', hm', rfl⟩⟩
      · rintro ⟨words, hwords⟩
        obtain ⟨m', hm', -⟩ := (meaning_entryId hsuffix hcolon hslash hwm _).2 hwords
        exact ⟨m', hm'⟩
    unfold unitWord
    rw [forall_prop_of_true rfl, hfound, and_comm]
    refine and_congr_right fun hwords => ?_
    cases habs : isAbsolute comp'.program with
    | true => simp
    | false =>
      obtain ⟨m', hm'⟩ := hfound.2 hwords
      refine iff_of_true ⟨m', hm', ?_⟩ (by simp)
      rw [hself] at hm' ⊢
      exact id_of_meaning_id hm hm'
  | false =>
    obtain ⟨hwm, rfl⟩ := (meaning_executable harg).1 hm
    have hexec : isEntryArg comp'.program = false ∧ fileBasename comp'.program = fileBasename arg0 := by
      have hstart : (compOf input ⟨fileBasename arg0, [arg0], [], none, none⟩).program = arg0 := rfl
      rw [hstart] at hprogram
      rcases hprogram with hprogram | hprogram
      · rw [hprogram]
        exact ⟨harg, rfl⟩
      · exact which_spec harg hprogram
    have hid' : comp'.id = fileBasename arg0 := hself
    have hagain := meaning_fileBasename host harg hwm
    refine iff_of_true ⟨?_, _, by rw [hid']; exact hagain⟩ (by simp)
    unfold unitWord
    split
    · refine ⟨⟨fileBasename arg0, [comp'.program], [], none, none⟩, ?_, hid'.symm⟩
      exact (meaning_executable hexec.1).2 ⟨by rwa [hexec.2], by rw [hexec.2]⟩
    · exact ⟨_, by rw [hid']; exact hagain, hid'.symm⟩

end

theorem watches_own_unit_iff_sway : ∃ comp, resolve bareHost (inputOf "sway".toList) = .ok comp ∧
    WatchesOwnUnit bareHost [] comp "/usr/bin/wsmr".toList := by
  have h := resolve_executable "sway".toList (by decide) (by decide)
  refine ⟨_, h, (@watches_own_unit_iff _ _ _ _ _ _ false h rfl).2 fun hentry => ?_⟩
  exact absurd hentry (by decide)

/-! ## An entry with an absolute program -/

/-- A host with one session entry. -/
def sessionHost : Host where
  env _ := none
  readFile path :=
    if path = "/s/foo.desktop".toList then
      some "[Desktop Entry]\nType=Application\nName=Foo\nExec=/usr/bin/sway\n".toList
    else none
  isExecutable path := path = "/usr/bin/sway".toList
  dir _ := none

theorem meaning_foo : ((meaning sessionHost "/s/foo.desktop".toList).toOption.map fun m => (m.id, m.words)) =
    some ("foo.desktop".toList, ["/usr/bin/sway".toList]) := by
  unfold sessionHost
  repeat rw [String.toList_ofList]
  decide

/-- The watcher of `wayland-wm@foo.desktop.service` watches `wayland-wm@sway.service`. -/
theorem entry_unit_unwatched : ∃ comp, resolve sessionHost (inputOf "/s/foo.desktop".toList) = .ok comp ∧
    ¬ WatchesOwnUnit sessionHost [] comp "/usr/bin/wsmr".toList := by
  have habs : isAbsolute "/usr/bin/sway".toList = true := by decide
  have hexec : isEntryArg "/usr/bin/sway".toList = false := by decide
  have hne : fileBasename "/usr/bin/sway".toList ≠ "foo.desktop".toList := by decide
  have hfoo := meaning_foo
  generalize "/s/foo.desktop".toList = word at hfoo ⊢
  generalize "/usr/bin/sway".toList = program at hfoo habs hexec hne
  generalize "foo.desktop".toList = id at hfoo hne
  cases hm : meaning sessionHost word with
  | error e => rw [hm] at hfoo; cases hfoo
  | ok m =>
    rw [hm] at hfoo
    obtain ⟨rfl, hwords⟩ := Prod.mk.inj (Option.some.inj hfoo)
    have hresolve : resolve sessionHost (inputOf word) = .ok (compOf (inputOf word) m) := by
      rw [resolve_eq word rfl, hm]
      rfl
    refine ⟨_, hresolve, fun hwatch => ?_⟩
    obtain ⟨⟨m', hm', hid⟩, -⟩ := (watchesOwnUnit_iff rfl).1 hwatch
    have hprogram : (compOf (inputOf word) m).program = program := by simp [CompGlobals.program, compOf, hwords]
    rw [unitWord, hprogram, habs] at hm'
    obtain ⟨-, rfl⟩ := (meaning_executable hexec).1 hm'
    exact hne hid

end Wsmr
