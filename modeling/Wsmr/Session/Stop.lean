import Wsmr.Units.Pristine

/-!
# Removal by compositor id (`src/session/stop.rs`)

The marks of `-r` are ids as they are typed. The paths that `mark_of` compares them with have the
escaped id in them, so that an id with a `-` in it never matches (`removal_exact_iff`).
-/

namespace Wsmr

open Text

/-- The value of `-r`; `none` is everything. -/
def parseMarks (raw : Str) : Option (List Str) :=
  let marks := ((raw.splitOn ',').map trim).filter (· ≠ [])
  if marks.isEmpty then none else some marks

/-- The drop-ins of a compositor. -/
def dropinsOf (id : Str) : List Str :=
  [preloaderPath (simpleSystemdEscape id false), servicePath (simpleSystemdEscape id false)]

/-- The manifest has the path. -/
def Tracked (dir : Rung) (q : Str) : Prop := ∃ m fp, Manifest.load dir = .ok m ∧ m.entries[q]? = some fp

/-- What the manifest has for the path is what is there. -/
def Unedited (dir : Rung) (q : Str) : Prop :=
  ∀ m fp, Manifest.load dir = .ok m → m.entries[q]? = some fp →
    ∃ e, dir.files q = some (.text e) ∧ fp = fingerprint e

/-- `-r id` plans the removal of every tracked drop-in of the compositor, and of nothing of `other` and no tweak. -/
def RemovesExactly (dir : Rung) (id other : Str) : Prop :=
  ∃ plan, planRemoveAll dir (parseMarks id) = .ok plan ∧
    (∀ q ∈ dropinsOf id, Tracked dir q → q ∈ plan.removes.map PlannedRemove.relname) ∧
    ∀ q ∈ plan.removes.map PlannedRemove.relname, q ∉ dropinsOf other ∧ isTweak q = false

/-! ## Marks -/

theorem parseMarks_wmId {id : Str} (h : isWmId id = true) : parseMarks id = some [id] := by
  have hcomma : ',' ∉ id := not_mem_wmId h (by decide)
  have hne : id ≠ [] := by
    rintro rfl
    exact absurd h (by decide)
  unfold parseMarks
  rw [List.splitOn_eq_singleton hcomma, List.map_singleton, trim_eq_self (not_whitespace_of_mem_wmId h)]
  simp [hne]

theorem not_tweak_of_suffix {q : Str} (h : dropinSuffix <:+ q) : isTweak q = false := by
  rw [isTweak, List.any_eq_false]
  intro tweak htweak he
  refine not_suffix_of_mem_staticNames q ?_ h
  exact List.mem_append_right _ (beq_iff_eq.1 he ▸ List.mem_map_of_mem htweak)

theorem markOf_eq {q : Str} (h : isTweak q = false) :
    markOf q = ["wayland-wm-env@".toList, "wayland-wm@".toList].findSome? fun p =>
      (stripPrefix p q).bind (stripSuffix dropinSuffix) := by
  unfold markOf
  exact if_neg (by simp [h])

theorem findSome?_first (p p' u s : Str) :
    [p, p'].findSome? (fun r => (stripPrefix r (p ++ u ++ s)).bind (stripSuffix s)) = some u := by
  simp [List.append_assoc, stripPrefix_append, stripSuffix_append]

theorem findSome?_second {p p' u s : Str} (h : stripPrefix p (p' ++ u ++ s) = none) :
    [p, p'].findSome? (fun r => (stripPrefix r (p' ++ u ++ s)).bind (stripSuffix s)) = some u := by
  rw [List.findSome?_cons, h]
  simp [List.append_assoc, stripPrefix_append, stripSuffix_append]

theorem markOf_preloaderPath (u : Str) : markOf (preloaderPath u) = some u := by
  rw [markOf_eq (not_tweak_of_suffix (suffix_preloaderPath u))]
  unfold preloaderPath
  exact findSome?_first _ _ _ _

/-- The path of the service's drop-in has not the prefix of the preloader's. -/
theorem stripPrefix_servicePath (u : Str) : stripPrefix "wayland-wm-env@".toList (servicePath u) = none := by
  have hlt : 10 < "wayland-wm-env@".toList.length := by decide
  have hten : "wayland-wm-env@".toList[10]? = some '-' := by decide
  generalize "wayland-wm-env@".toList = p at hlt hten ⊢
  refine if_neg fun ⟨s, hs⟩ => ?_
  have hten' := servicePath_ten u
  rw [← hs, List.getElem?_append_left hlt, hten] at hten'
  exact absurd hten' (by decide)

theorem markOf_servicePath (u : Str) : markOf (servicePath u) = some u := by
  have hno := stripPrefix_servicePath u
  rw [markOf_eq (not_tweak_of_suffix (suffix_servicePath u))]
  unfold servicePath at hno ⊢
  exact findSome?_second hno

theorem markOf_dropin {id q : Str} (h : q ∈ dropinsOf id) : markOf q = some (simpleSystemdEscape id false) := by
  simp only [dropinsOf, List.mem_cons, List.not_mem_nil, or_false] at h
  rcases h with rfl | rfl
  · exact markOf_preloaderPath _
  · exact markOf_servicePath _

theorem suffix_dropin {id q : Str} (h : q ∈ dropinsOf id) : dropinSuffix <:+ q := by
  simp only [dropinsOf, List.mem_cons, List.not_mem_nil, or_false] at h
  rcases h with rfl | rfl
  · exact suffix_preloaderPath _
  · exact suffix_servicePath _

/-- The unit string of an id is an id only when it is the same. -/
theorem escape_eq_iff {a b : Str} (ha : isWmId a = true) (hb : isWmId b = true) :
    simpleSystemdEscape b false = a ↔ '-' ∉ a ∧ b = a := by
  constructor
  · intro h
    have hdash : '-' ∉ b := fun hb' => by
      have hslash := backslash_mem_escape hb' (by decide) (by decide)
      rw [h] at hslash
      exact not_mem_wmId ha (by decide) hslash
    have hself := escape_of_allowed fun c hc => isAllowed_of_mem_wmId hb hc fun he => hdash (he ▸ hc)
    rw [hself] at h
    exact ⟨h ▸ hdash, h⟩
  · rintro ⟨hdash, rfl⟩
    exact escape_of_allowed fun c hc => isAllowed_of_mem_wmId hb hc fun he => hdash (he ▸ hc)

/-! ## What is selected -/

section
variable {dir : Rung} {m : Manifest} {a : Str}

theorem isCompositorDropin_eq_true {q : Str} (h : dropinSuffix <:+ q)
    (hp : "wayland-wm@".toList <+: q ∨ "wayland-wm-env@".toList <+: q) : isCompositorDropin q = true := by
  unfold isCompositorDropin
  rw [Bool.and_eq_true, Bool.or_eq_true]
  exact ⟨decide_eq_true h, hp.imp decide_eq_true decide_eq_true⟩

theorem removable_dropin {id q : Str} (h : q ∈ dropinsOf id) : isRemovableDropin q = true := by
  simp only [dropinsOf, List.mem_cons, List.not_mem_nil, or_false] at h
  unfold isRemovableDropin
  rw [Bool.or_eq_true]
  right
  rcases h with rfl | rfl
  · exact isCompositorDropin_eq_true (suffix_preloaderPath _) (Or.inr ⟨_, (List.append_assoc _ _ _).symm⟩)
  · exact isCompositorDropin_eq_true (suffix_servicePath _) (Or.inl ⟨_, (List.append_assoc _ _ _).symm⟩)

/-- `-r` with an id selects tracked drop-ins of that compositor, if its unit string is the id. -/
theorem mem_selected_iff (hs : Sound dir m) (ha : isWmId a = true) (htweaks : a ≠ "tweaks".toList) {q : Str} :
    q ∈ selected m (some [a]) ↔ '-' ∉ a ∧ q ∈ dropinsOf a ∧ ∃ fp, m.entries[q]? = some fp := by
  constructor
  · intro hq
    obtain ⟨⟨fp, hfp⟩, hrem⟩ := mem_selected hq
    have hmark : markOf q = some a := by
      have hmarked := (List.mem_filter.1 hq).2
      unfold marked at hmarked
      dsimp only at hmarked
      obtain ⟨mark, hmark, hcontains⟩ := (Option.any_eq_true _ _).1 hmarked
      rwa [List.mem_singleton.1 (List.contains_iff_mem.1 hcontains)] at hmark
    have hnotweak : isTweak q = false := by
      cases ht : isTweak q with
      | false => rfl
      | true =>
        unfold markOf at hmark
        rw [if_pos ht] at hmark
        exact absurd (Option.some.inj hmark).symm htweaks
    rcases (hs q fp hfp).2.1 with hstatic | ⟨id, hid, hq'⟩
    · rcases List.mem_append.1 hstatic with hg | ht
      · exact absurd hrem (by simp [graph_not_removable q hg])
      · obtain ⟨tweak, htweak, rfl⟩ := List.mem_map.1 ht
        rw [isTweak, List.any_eq_false] at hnotweak
        exact absurd (beq_self_eq_true _) (hnotweak tweak htweak)
    · have hdrop : q ∈ dropinsOf id := by simpa [dropinsOf] using hq'
      rw [markOf_dropin hdrop, Option.some.injEq, escape_eq_iff ha hid] at hmark
      obtain ⟨hdash, rfl⟩ := hmark
      exact ⟨hdash, hdrop, fp, hfp⟩
  · rintro ⟨hdash, hq, fp, hfp⟩
    have hkey : q ∈ m.tracked :=
      Std.ExtTreeMap.mem_keys.2 (Std.ExtTreeMap.mem_iff_isSome_getElem?.2 (by rw [hfp]; rfl))
    refine List.mem_filter.2 ⟨List.mem_filter.2 ⟨hkey, removable_dropin hq⟩, ?_⟩
    unfold marked
    rw [markOf_dropin hq, (escape_eq_iff ha ha).2 ⟨hdash, rfl⟩]
    simp

theorem tracked_iff (hm : Manifest.load dir = .ok m) {q : Str} :
    Tracked dir q ↔ ∃ fp, m.entries[q]? = some fp := by
  constructor
  · rintro ⟨m', fp, hm', hfp⟩
    obtain rfl := Except.ok.inj (hm.symm.trans hm')
    exact ⟨fp, hfp⟩
  · rintro ⟨fp, hfp⟩
    exact ⟨m, fp, hm, hfp⟩

/-- The plan, when nobody has edited the drop-ins. -/
theorem planRemoveAll_unedited (hm : Manifest.load dir = .ok m) (hs : Sound dir m) (ha : isWmId a = true)
    (htweaks : a ≠ "tweaks".toList) (hunedited : ∀ q ∈ dropinsOf a, Unedited dir q) :
    ∃ plan, planRemoveAll dir (some [a]) = .ok plan ∧
      plan.removes.map PlannedRemove.relname = selected m (some [a]) := by
  have hfile : ∀ q ∈ selected m (some [a]), ∃ e, dir.files q = some (.text e) ∧ m.verify q e = true := by
    intro q hq
    obtain ⟨-, hdrop, fp, hfp⟩ := (mem_selected_iff hs ha htweaks).1 hq
    obtain ⟨e, he, rfl⟩ := hunedited q hdrop m fp hm hfp
    exact ⟨e, he, by simp [Manifest.verify, hfp]⟩
  refine ⟨RemovalPlan.extend ⟨[], [], m⟩ dir (selected m (some [a])), planRemoveAll_ok.2 ⟨hm, fun q hq => ?_, rfl⟩, ?_⟩
  · obtain ⟨e, he, -⟩ := hfile q hq
    simp [Rung.Readable, he]
  · have hall : (selected m (some [a])).filter (removable dir m) = selected m (some [a]) := by
      refine List.filter_eq_self.2 fun q hq => ?_
      obtain ⟨e, he, hv⟩ := hfile q hq
      simp [removable, he, textOf, hv]
    simp only [RemovalPlan.extend, List.nil_append, hall, List.map_map, Function.comp_def, List.map_id']

/-- Under an id with a `-` in it, nothing is found. -/
theorem not_removesExactly (ha : Accounted dir) (hid : isWmId a = true) (htweaks : a ≠ "tweaks".toList)
    (hdash : '-' ∈ a) {q b : Str} (hq : q ∈ dropinsOf a) (htracked : Tracked dir q) : ¬ RemovesExactly dir a b := by
  rintro ⟨plan, hplan, hall, -⟩
  rw [parseMarks_wmId hid] at hplan
  obtain ⟨hload, -, hp⟩ := planRemoveAll_ok.1 hplan
  have hmem := hall q hq htracked
  rw [hp] at hmem
  simp only [RemovalPlan.extend, List.nil_append, List.map_map, List.mem_map, Function.comp_apply] at hmem
  obtain ⟨q', hq', -⟩ := hmem
  exact ((mem_selected_iff (sound_of_load ha hload) hid htweaks).1 (List.mem_filter.1 hq').1).1 hdash

end

/-! ## Removal by id -/

/-- **Removal by compositor id**: exact, as long as the id has no `-` in it, or nothing of it is tracked. -/
theorem removal_exact_iff {dir : Rung} (h : dir.files manifestName = none) (steps : List Step) {a b : Str}
    (ha : isWmId a = true) (hb : isWmId b = true) (hne : a ≠ b) (htweaks : a ≠ "tweaks".toList)
    (hunedited : ∀ q ∈ dropinsOf a, Unedited (runSteps steps dir) q) :
    RemovesExactly (runSteps steps dir) a b ↔ '-' ∉ a ∨ ∀ q ∈ dropinsOf a, ¬ Tracked (runSteps steps dir) q := by
  have haccounted := accounted_runSteps (Or.inl h) steps
  obtain ⟨m, hm, hs⟩ := load_of_accounted haccounted
  obtain ⟨plan, hplan, hremoves⟩ := planRemoveAll_unedited hm hs ha htweaks hunedited
  constructor
  · intro hexact
    by_contra hcond
    rw [not_or, not_not] at hcond
    obtain ⟨q, hq⟩ := not_forall.1 hcond.2
    obtain ⟨hq, htracked⟩ := Classical.not_imp.1 hq
    exact not_removesExactly haccounted ha htweaks hcond.1 hq (not_not.1 htracked) hexact
  · intro hcond
    rw [← parseMarks_wmId ha] at hplan
    refine ⟨plan, hplan, fun q hq htracked => ?_, fun q hq => ?_⟩
    · rw [hremoves]
      refine (mem_selected_iff hs ha htweaks).2 ⟨hcond.resolve_right fun hno => hno q hq htracked, hq, ?_⟩
      exact (tracked_iff hm).1 htracked
    · rw [hremoves] at hq
      obtain ⟨hdash, hdrop, -⟩ := (mem_selected_iff hs ha htweaks).1 hq
      refine ⟨fun hother => ?_, ?_⟩
      · -- one path, two marks
        have hmark := (markOf_dropin hdrop).symm.trans (markOf_dropin hother)
        rw [(escape_eq_iff ha ha).2 ⟨hdash, rfl⟩, Option.some.injEq] at hmark
        exact hne ((escape_eq_iff ha hb).1 hmark.symm).2.symm
      · exact not_tweak_of_suffix (suffix_dropin hdrop)

/-- Another build of sway, started by its absolute path. -/
def swayGitInput : ResolvedInput where
  id := "sway-git".toList
  idUnitString := simpleSystemdEscape "sway-git".toList false
  binPath := "/usr/bin/wsmr".toList
  binName := "sway-git".toList
  name := none
  description := none
  desktopNames := ["sway-git".toList]
  cliDesktopNames := []
  cliDesktopNamesExclusive := false
  cmdline := ["/usr/bin/sway-git".toList]
  cliArgs := []
  wm_id := by decide
  unit_string := rfl

/-- Both have been generated. -/
def bothGenerated : List Step := [.call (generating usrBin swayInput), .call (generating usrBin swayGitInput)]

theorem unedited_of_holds {dir : Rung} {q content : Str} (h : Holds dir q content) : Unedited dir q := by
  obtain ⟨hfile, m, hm, hfp⟩ := h
  intro m' fp hm' hfp'
  obtain rfl := Except.ok.inj (hm.symm.trans hm')
  exact ⟨content, hfile, Option.some.inj (hfp'.symm.trans hfp)⟩

theorem tracked_of_holds {dir : Rung} {q content : Str} (h : Holds dir q content) : Tracked dir q :=
  h.2.imp fun _ hm => ⟨_, hm⟩

/-- The drop-ins of different compositors have different names. -/
theorem not_target_of_ne {ctx : RenderCtx} {dropins : DropinInput} {a q : Str} (hq : q ∈ dropinsOf a)
    (hne : simpleSystemdEscape a false ≠ dropins.idUnitString) :
    q ∉ (targets ctx dropins false true).map Target.relname := by
  have hmark := markOf_dropin hq
  have hsuffix := suffix_dropin hq
  rw [names_of_targets]
  simp only [List.mem_append, List.mem_cons, List.not_mem_nil, or_false, not_or]
  refine ⟨fun hs => not_suffix_of_mem_staticNames q hs hsuffix, fun he => ?_, fun he => ?_⟩
  · rw [he, markOf_preloaderPath] at hmark
    exact hne (Option.some.inj hmark).symm
  · rw [he, markOf_servicePath] at hmark
    exact hne (Option.some.inj hmark).symm

/-- The drop-ins of a compositor that is started by its path, after its generation. -/
theorem holds_dropins {ctx : RenderCtx} {dir : Rung} (dropins : ResolvedInput) (h : Pristine ctx dir)
    (hpre : (preloaderDropin dropins.toDropinInput).isSome = true)
    (hsvc : (serviceDropin dropins.toDropinInput).isSome = true)
    (hmissing : ∀ q ∈ dropinsOf dropins.id, dir.files q = none) :
    ∀ q ∈ dropinsOf dropins.id, ∃ content, Holds ((generating ctx dropins).run dir) q content := by
  obtain ⟨pre, hpre⟩ := Option.isSome_iff_exists.1 hpre
  obtain ⟨svc, hsvc⟩ := Option.isSome_iff_exists.1 hsvc
  intro q hq
  have hmiss := hmissing q hq
  simp only [dropinsOf, List.mem_cons, List.not_mem_nil, or_false, ← dropins.unit_string] at hq
  rcases hq with rfl | rfl
  · refine ⟨pre, holds_target h (List.mem_append_right _ List.mem_cons_self) ?_ hmiss⟩
    exact hpre
  · refine ⟨svc, holds_target h (List.mem_append_right _ (List.mem_cons_of_mem _ List.mem_cons_self)) ?_ hmiss⟩
    exact hsvc

theorem dropin_ne_manifestName {a q : Str} (hq : q ∈ dropinsOf a) : q ≠ manifestName := fun he =>
  not_suffix_manifestName (he ▸ suffix_dropin hq)

/-- What has been generated is there, and recorded. -/
theorem holds_bothGenerated {q : Str} (hq : q ∈ dropinsOf swayInput.id ∨ q ∈ dropinsOf swayGitInput.id) :
    ∃ content, Holds (runSteps bothGenerated emptyRung) q content := by
  have hne : simpleSystemdEscape swayGitInput.id false ≠ swayInput.idUnitString := by decide
  have hne' : simpleSystemdEscape swayInput.id false ≠ swayGitInput.idUnitString := by decide
  have hnext := pristine_generating swayInput pristine_emptyRung
  rw [bothGenerated, runSteps_call, runSteps_call, runSteps_nil]
  rcases hq with hq | hq
  · obtain ⟨content, hold⟩ := holds_dropins swayInput pristine_emptyRung (by decide)
      (by decide) (fun _ _ => rfl) q hq
    exact ⟨content, holds_other hnext (dropin_ne_manifestName hq) (not_target_of_ne hq hne') hold⟩
  · refine holds_dropins _ hnext (by decide) (by decide) (fun q hq => ?_) q hq
    exact files_other pristine_emptyRung (dropin_ne_manifestName hq) (not_target_of_ne hq hne)

theorem removal_exact_iff_sway : RemovesExactly (runSteps bothGenerated emptyRung) swayInput.id swayGitInput.id := by
  refine (removal_exact_iff rfl bothGenerated swayInput.wm_id swayGitInput.wm_id (by decide)
    (by decide) fun q hq => ?_).2 (Or.inl (by decide))
  obtain ⟨content, hold⟩ := holds_bothGenerated (Or.inl hq)
  exact unedited_of_holds hold

/-- `-r sway-git` leaves the drop-ins of sway-git where they are. -/
theorem dashed_id_not_removed :
    (∀ q, q ∈ dropinsOf swayInput.id ∨ q ∈ dropinsOf swayGitInput.id →
      Tracked (runSteps bothGenerated emptyRung) q ∧ Unedited (runSteps bothGenerated emptyRung) q) ∧
    ¬ RemovesExactly (runSteps bothGenerated emptyRung) swayGitInput.id swayInput.id := by
  refine ⟨fun q hq => ?_, ?_⟩
  · obtain ⟨content, hold⟩ := holds_bothGenerated hq
    exact ⟨tracked_of_holds hold, unedited_of_holds hold⟩
  · have hq : preloaderPath (simpleSystemdEscape swayGitInput.id false) ∈ dropinsOf swayGitInput.id :=
      List.mem_cons_self
    obtain ⟨content, hold⟩ := holds_bothGenerated (Or.inr hq)
    exact not_removesExactly (accounted_runSteps (Or.inl rfl) bothGenerated) swayGitInput.wm_id (by decide)
      (by decide) hq (tracked_of_holds hold)

end Wsmr
