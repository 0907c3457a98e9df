import Wsmr.Units.Generate

/-!
# File ownership over whole runs

A run starts in a directory without a manifest and goes through any calls, that succeed or fail, with
other programs changing files in between (`Step`). What carries it is `Accounted`: the manifest file is the
rendering of a manifest whose every entry is a managed path with the fingerprint of something wsmr has
written there. A call plans only changes that this manifest permits (`Permitted`), so that it respects
what it does not own (`ownership`).
-/

namespace Wsmr

open Text Effects UndoLog

/-! ## Runs -/

/-- Planning and applying, with what fails on the way. -/
inductive Call where
  | generate (ctx : RenderCtx) (dropins : ResolvedInput) (tweaksEnabled reclaimStale : Bool) (faults : FsFaults)
  | removeAll (marks : Option (List Str)) (faults : FsFaults)

def Call.run : Call → Rung → Rung
  | .generate ctx dropins tweaksEnabled reclaimStale faults, dir =>
    match planGenerate dir ctx dropins.toDropinInput tweaksEnabled reclaimStale with
    | .ok plan => (runFs faults (applyGenerate dir.path plan) dir).2
    | .error _ => dir
  | .removeAll marks faults, dir =>
    match planRemoveAll dir marks with
    | .ok plan => (runFs faults (applyRemoval dir.path plan) dir).2
    | .error _ => dir

inductive Step where
  | call (c : Call)
  /-- Another program changes a file. -/
  | edit (relname : Str) (data : Option FileData) (other : relname ≠ manifestName)

def Step.run : Step → Rung → Rung
  | .call c, dir => c.run dir
  | .edit relname data _, dir => { dir with files := Function.update dir.files relname data }

def runSteps (steps : List Step) (dir : Rung) : Rung := steps.foldl (fun dir step => step.run dir) dir

theorem runSteps_nil (dir : Rung) : runSteps [] dir = dir := rfl

theorem runSteps_call (c : Call) (steps : List Step) (dir : Rung) :
    runSteps (.call c :: steps) dir = runSteps steps (c.run dir) := rfl

/-! ## What a call may do -/

/-- The paths wsmr has to do with. -/
def Managed (q : Str) : Prop :=
  q ∈ staticNames ∨ ∃ id, isWmId id = true ∧
    (q = preloaderPath (simpleSystemdEscape id false) ∨ q = servicePath (simpleSystemdEscape id false))

/-- The paths a call may change. -/
def Call.mayChange : Call → Str → Prop
  | .generate _ dropins _ _ _, q =>
    q ∈ staticNames ∨ q = preloaderPath dropins.idUnitString ∨ q = servicePath dropins.idUnitString ∨ q = manifestName
  | .removeAll _ _, q => Managed q ∨ q = manifestName

/-- Whether foreign drop-ins are overwritten. -/
def Call.reclaims : Call → Bool
  | .generate _ _ _ reclaimStale _ => reclaimStale
  | .removeAll _ _ => false

/-- The content of a file has the fingerprint that the manifest records for it. -/
def OwnedIn (dir : Rung) (q : Str) (data : FileData) : Prop :=
  ∃ m e, Manifest.load dir = .ok m ∧ data = .text e ∧ m.verify q e = true

/-- What a call that finds `dir` and leaves `dir'` has done to the files that were there. -/
structure Respects (c : Call) (dir dir' : Rung) : Prop where
  paths : ∀ q, dir'.files q ≠ dir.files q → c.mayChange q
  graph_kept : ∀ q ∈ graph.map UnitTemplate.name, dir.files q ≠ none → dir'.files q ≠ none
  graph_owned : ∀ q ∈ graph.map UnitTemplate.name, ∀ data, dir.files q = some data → dir'.files q ≠ dir.files q →
    OwnedIn dir q data
  deleted_owned : ∀ q, q ≠ manifestName → ∀ data, dir.files q = some data → dir'.files q = none → OwnedIn dir q data
  overwritten_owned : ∀ q, q ≠ manifestName → ∀ data, dir.files q = some data → dir'.files q ≠ dir.files q →
    OwnedIn dir q data ∨ c.reclaims = true

/-- wsmr has written something with this fingerprint there. -/
def Written (dir : Rung) (q : Str) (fp : UInt64) : Prop :=
  ∃ content, ⟨false, q, some content⟩ ∈ dir.log ∧ fp = fingerprint content

/-- Every fingerprint in the manifest is that of something written. -/
def Truthful (dir : Rung) : Prop :=
  ∀ m : Manifest, Manifest.load dir = .ok m → ∀ q fp, m.entries[q]? = some fp → Written dir q fp

/-! ## The invariant -/

/-- A manifest that can be saved and read back, and whose entries are accounted for. -/
def Sound (dir : Rung) (m : Manifest) : Prop :=
  ∀ q fp, m.entries[q]? = some fp → Manifest.Storable q ∧ Managed q ∧ Written dir q fp

def Accounted (dir : Rung) : Prop :=
  dir.files manifestName = none ∨ ∃ m : Manifest, dir.files manifestName = some (.text m.render) ∧ Sound dir m

theorem sound_default (dir : Rung) : Sound dir .default := fun q fp h => by
  simp [Manifest.default] at h

/-- What is loaded is what has been saved. -/
theorem load_of_accounted {dir : Rung} (h : Accounted dir) : ∃ m, Manifest.load dir = .ok m ∧ Sound dir m := by
  unfold Manifest.load
  rcases h with h | ⟨m, h, hs⟩
  · have hread : dir.readToString manifestName = .ok none :=
      Rung.readToString_eq_ok.2 ⟨by simp [Rung.Readable, h], by rw [h]; rfl⟩
    rw [hread]
    exact ⟨.default, rfl, sound_default dir⟩
  · have hread : dir.readToString manifestName = .ok (some m.render) :=
      Rung.readToString_eq_ok.2 ⟨by simp [Rung.Readable, h], by rw [h]; rfl⟩
    have hstorable : ∀ k ∈ m.entries, Manifest.Storable k := fun k hk => by
      obtain ⟨fp, hfp⟩ := Option.isSome_iff_exists.1 (Std.ExtTreeMap.mem_iff_isSome_getElem?.1 hk)
      exact (hs k fp hfp).1
    rw [hread]
    refine ⟨m, ?_, hs⟩
    show Except.ok (Manifest.parse m.render) = _
    rw [Manifest.parse_render hstorable]

theorem truthful_of_accounted {dir : Rung} (h : Accounted dir) : Truthful dir := by
  obtain ⟨m, hm, hs⟩ := load_of_accounted h
  intro m' hm' q fp hq
  obtain rfl := Except.ok.inj (hm.symm.trans hm')
  exact (hs q fp hq).2.2

theorem sound_mono {dir dir' : Rung} {m : Manifest} (h : ∀ c ∈ dir.log, c ∈ dir'.log) (hs : Sound dir m) :
    Sound dir' m := fun q fp hq => by
  obtain ⟨hst, hmg, content, hlog, hfp⟩ := hs q fp hq
  exact ⟨hst, hmg, content, h _ hlog, hfp⟩

/-! ## Batches of permitted changes -/

/-- A change that the manifest, or `reclaim`, permits. -/
structure Permitted (dir : Rung) (m : Manifest) (reclaims : Bool) (c : Str × Option Str) : Prop where
  readable : dir.Readable c.1
  managed : Managed c.1
  storable : Manifest.Storable c.1
  graph : c.1 ∈ graph.map UnitTemplate.name →
    c.2 ≠ none ∧ ∀ e, textOf (dir.files c.1) = some e → m.verify c.1 e = true
  owned : ∀ e, textOf (dir.files c.1) = some e → m.verify c.1 e = true ∨ (reclaims = true ∧ c.2 ≠ none)

theorem manifestName_not_managed {q : Str} (h : Managed q) : q ≠ manifestName := by
  rintro rfl
  rcases h with h | ⟨id, -, h | h⟩
  · exact manifestName_not_mem_staticNames h
  · exact not_suffix_manifestName (h ▸ suffix_preloaderPath _)
  · exact not_suffix_manifestName (h ▸ suffix_servicePath _)

theorem textOf_of_readable {dir : Rung} {q : Str} {data : FileData} (h : dir.Readable q)
    (hd : dir.files q = some data) :
    ∃ e, data = .text e ∧ textOf (dir.files q) = some e := by
  cases data with
  | text e => exact ⟨e, rfl, by rw [hd]; rfl⟩
  | unreadable => exact absurd hd h

section
variable {dir : Rung} {m : Manifest} {reclaims : Bool} {cs : List (Str × Option Str)} {forgotten : List Str}
  {faults : FsFaults}

theorem manifestName_not_mem_changes (hp : ∀ c ∈ cs, Permitted dir m reclaims c) : manifestName ∉ cs.map Prod.fst :=
  fun h => by
    obtain ⟨c, hc, he⟩ := List.mem_map.1 h
    exact manifestName_not_managed (hp c hc).managed he

/-- A manifest that is as it was, or saved after a batch of permitted changes, is accounted for. -/
theorem accounted_of_saved {dir' : Rung} (ha : Accounted dir) (hs : Sound dir m) (hn : (cs.map Prod.fst).Nodup)
    (hp : ∀ c ∈ cs, Permitted dir m reclaims c)
    (hfile : dir'.files manifestName = dir.files manifestName ∨
      dir'.files manifestName = some (.text (m.after cs forgotten).render) ∧
        ∀ q content, (q, some content) ∈ cs → ⟨false, q, some content⟩ ∈ dir'.log)
    (hlog : ∀ c ∈ dir.log, c ∈ dir'.log) : Accounted dir' := by
  rcases hfile with hfile | ⟨hfile, hwrote⟩
  · unfold Accounted
    rw [hfile]
    exact ha.imp_right fun ⟨m', hm', hs'⟩ => ⟨m', hm', sound_mono hlog hs'⟩
  · refine Or.inr ⟨_, hfile, fun q fp hq => ?_⟩
    rcases of_getElem?_after hn hq with hq | ⟨content, hc, rfl⟩
    · exact sound_mono hlog hs q fp hq
    · exact ⟨(hp _ hc).storable, (hp _ hc).managed, content, hwrote q content hc, rfl⟩

/-- The state after a batch of permitted changes is accounted for. -/
theorem accounted_runBatch (ha : Accounted dir) (hs : Sound dir m) (hn : (cs.map Prod.fst).Nodup)
    (hp : ∀ c ∈ cs, Permitted dir m reclaims c) :
    Accounted (runFs faults (runBatch dir.path m cs forgotten) dir).2 := by
  obtain ⟨-, hfile, hlog⟩ := runBatch_within faults dir.path m forgotten
    (fun c hc => (hp c hc).readable) hn (manifestName_not_mem_changes hp)
  exact accounted_of_saved ha hs hn hp hfile hlog

/-- Files that are as they were, or as permitted changes leave them, respect what is not owned. -/
theorem respects_of_within {call : Call} {dir' : Rung} (hm : Manifest.load dir = .ok m)
    (hp : ∀ c ∈ cs, Permitted dir m call.reclaims c) (hmay : ∀ c ∈ cs, call.mayChange c.1)
    (hmani : call.mayChange manifestName)
    (hfiles : ∀ q, q ≠ manifestName → dir'.files q = dir.files q ∨ (q, dir'.files q) ∈ Rung.toChanges cs) :
    Respects call dir dir' := by
  -- a path that has changed was changed as planned
  have hplanned : ∀ q, q ≠ manifestName → dir'.files q ≠ dir.files q →
      ∃ c ∈ cs, c.1 = q ∧ dir'.files q = c.2.map .text := fun q hq hne => by
    obtain ⟨c, hc, he⟩ := List.mem_map.1 ((hfiles q hq).resolve_left hne)
    obtain ⟨rfl, he⟩ := Prod.mk.inj he
    exact ⟨c, hc, rfl, he.symm⟩
  have hgraph : ∀ q ∈ graph.map UnitTemplate.name, q ≠ manifestName := fun q hq =>
    manifestName_not_managed (Or.inl (List.mem_append_left _ hq))
  constructor
  · intro q hne
    by_cases hq : q = manifestName
    · exact hq ▸ hmani
    · obtain ⟨c, hc, rfl, -⟩ := hplanned q hq hne
      exact hmay c hc
  · intro q hq hsome hnone
    obtain ⟨c, hc, rfl, he⟩ := hplanned q (hgraph q hq) (by rw [hnone]; exact hsome.symm)
    rw [hnone] at he
    exact ((hp c hc).graph hq).1 (Option.map_eq_none_iff.1 he.symm)
  · intro q hq data hd hne
    obtain ⟨c, hc, rfl, -⟩ := hplanned q (hgraph q hq) hne
    obtain ⟨e, rfl, he⟩ := textOf_of_readable (hp c hc).readable hd
    exact ⟨m, e, hm, rfl, ((hp c hc).graph hq).2 e he⟩
  · intro q hq data hd hnone
    obtain ⟨c, hc, rfl, hc2⟩ := hplanned q hq (by rw [hnone, hd]; simp)
    obtain ⟨e, rfl, he⟩ := textOf_of_readable (hp c hc).readable hd
    rw [hnone] at hc2
    refine ⟨m, e, hm, rfl, ((hp c hc).owned e he).resolve_right fun hr => hr.2 ?_⟩
    exact Option.map_eq_none_iff.1 hc2.symm
  · intro q hq data hd hne
    obtain ⟨c, hc, rfl, -⟩ := hplanned q hq hne
    obtain ⟨e, rfl, he⟩ := textOf_of_readable (hp c hc).readable hd
    exact ((hp c hc).owned e he).imp (fun hv => ⟨m, e, hm, rfl, hv⟩) And.left

/-- A batch of permitted changes respects what is not owned. -/
theorem respects_runBatch {call : Call} (hm : Manifest.load dir = .ok m) (hn : (cs.map Prod.fst).Nodup)
    (hp : ∀ c ∈ cs, Permitted dir m call.reclaims c) (hmay : ∀ c ∈ cs, call.mayChange c.1)
    (hmani : call.mayChange manifestName) :
    Respects call dir (runFs faults (runBatch dir.path m cs forgotten) dir).2 :=
  respects_of_within hm hp hmay hmani (runBatch_within faults dir.path m forgotten
    (fun c hc => (hp c hc).readable) hn (manifestName_not_mem_changes hp)).1

end

/-! ## Plans are such batches -/

section
variable {dir : Rung} {ctx : RenderCtx} {tweaksEnabled reclaimStale : Bool}

theorem eq_of_mem_graph {dropins : DropinInput} {t : Target}
    (ht : t ∈ targets ctx dropins tweaksEnabled reclaimStale) (hg : t.relname ∈ graph.map UnitTemplate.name) :
    t.wanted ≠ none ∧ t.reclaim = false := by
  obtain ⟨unit, hunit, he⟩ := List.mem_map.1 hg
  have hmem : writeTarget unit.name (render unit.body ctx) ∈ targets ctx dropins tweaksEnabled reclaimStale :=
    List.mem_append_left _ (List.mem_append_left _ (List.mem_map.2 ⟨unit, hunit, rfl⟩))
  obtain rfl := List.inj_on_of_nodup_map (nodup_targets ctx dropins tweaksEnabled reclaimStale) ht hmem he.symm
  exact ⟨by simp [writeTarget], rfl⟩

theorem mem_names_of_targets {dropins : DropinInput} {t : Target}
    (ht : t ∈ targets ctx dropins tweaksEnabled reclaimStale) : t.relname ∈ staticNames ∨
      t.relname = preloaderPath dropins.idUnitString ∨ t.relname = servicePath dropins.idUnitString := by
  have hn := List.mem_map_of_mem (f := Target.relname) ht
  rw [names_of_targets] at hn
  simpa using hn

theorem reclaim_targets {dropins : DropinInput} {t : Target}
    (ht : t ∈ targets ctx dropins tweaksEnabled reclaimStale) : t.reclaim = true → reclaimStale = true := by
  unfold targets at ht
  simp only [List.mem_append, List.mem_map, List.mem_cons, List.not_mem_nil, or_false] at ht
  rcases ht with (⟨_, _, rfl⟩ | ⟨_, _, rfl⟩) | rfl | rfl
  · exact fun h => absurd h (by simp [writeTarget])
  · exact id
  · exact id
  · exact id

theorem permitted_generate {dropins : ResolvedInput} {plan : GenerationPlan}
    (h : planGenerate dir ctx dropins.toDropinInput tweaksEnabled reclaimStale = .ok plan) :
    ∀ c ∈ changesOf plan.writes plan.removes, Permitted dir plan.manifest reclaimStale c ∧
      (c.1 ∈ staticNames ∨ c.1 = preloaderPath dropins.idUnitString ∨ c.1 = servicePath dropins.idUnitString) := by
  obtain ⟨-, hr, hp⟩ := planGenerate_ok.1 h
  intro c hc
  rw [hp] at hc
  obtain ⟨t, ht, hchange⟩ := mem_changesOf.1 hc
  obtain ⟨h1, h2, hown⟩ := of_change hchange
  have hname := mem_names_of_targets ht
  rw [← h1] at hname
  refine ⟨⟨h1 ▸ hr t ht, ?_, h1 ▸ storable_targets (newline_not_mem_unit_string dropins) ht, fun hg => ?_,
    fun e he => ?_⟩, hname⟩
  · refine hname.imp_right fun h => ⟨dropins.id, dropins.wm_id, ?_⟩
    rwa [← dropins.unit_string]
  · rw [h1] at hg ⊢
    obtain ⟨hw, hrec⟩ := eq_of_mem_graph ht hg
    refine ⟨h2 ▸ hw, fun e he => (hown e he).resolve_right fun hx => ?_⟩
    exact absurd (hrec.symm.trans hx.1) (by decide)
  · rw [h1] at he ⊢
    exact (hown e he).imp_right fun hx => ⟨reclaim_targets ht hx.1, h2 ▸ hx.2⟩

theorem graph_not_removable : ∀ q ∈ graph.map UnitTemplate.name, isRemovableDropin q = false := by
  intro q hq
  have htweak : q ∉ tweaks.map UnitTemplate.name := List.disjoint_of_nodup_append nodup_staticNames hq
  have hdropin : ¬ dropinSuffix <:+ q := not_suffix_of_mem_staticNames q (List.mem_append_left _ hq)
  simp only [isRemovableDropin, Bool.or_eq_false_iff, isTweak, List.any_eq_false, beq_iff_eq, isCompositorDropin,
    Bool.and_eq_false_iff, decide_eq_false_iff_not]
  exact ⟨fun t ht he => htweak (he ▸ List.mem_map_of_mem ht), Or.inl hdropin⟩

theorem mem_selected {m : Manifest} {marks : Option (List Str)} {q : Str} (h : q ∈ selected m marks) :
    (∃ fp, m.entries[q]? = some fp) ∧ isRemovableDropin q = true := by
  obtain ⟨h, -⟩ := List.mem_filter.1 h
  obtain ⟨hk, hrem⟩ := List.mem_filter.1 h
  exact ⟨Option.isSome_iff_exists.1 (Std.ExtTreeMap.mem_iff_isSome_getElem?.1 (Std.ExtTreeMap.mem_keys.1 hk)), hrem⟩

theorem permitted_removal {marks : Option (List Str)} {plan : RemovalPlan} (hs : Sound dir plan.manifest)
    (h : planRemoveAll dir marks = .ok plan) :
    ∀ c ∈ changesOf [] plan.removes, Permitted dir plan.manifest false c := by
  obtain ⟨-, hr, hp⟩ := planRemoveAll_ok.1 h
  intro c hc
  rw [hp] at hc
  simp only [changesOf, RemovalPlan.extend, List.map_nil, List.nil_append, List.map_map, List.mem_map,
    Function.comp_apply] at hc
  obtain ⟨q, hq, rfl⟩ := hc
  obtain ⟨hq, hrem⟩ := List.mem_filter.1 hq
  obtain ⟨⟨fp, hfp⟩, hdropin⟩ := mem_selected hq
  obtain ⟨hst, hmg, -⟩ := hs q fp hfp
  have hverified : ∀ e, textOf (dir.files q) = some e → plan.manifest.verify q e = true := fun e he => by
    simpa [removable, he] using hrem
  refine ⟨hr q hq, hmg, hst, fun hg => ?_, fun e he => Or.inl (hverified e he)⟩
  exact absurd (graph_not_removable q hg) (by simp [hdropin])

theorem nodup_changes_generate {dropins : DropinInput} {plan : GenerationPlan}
    (h : planGenerate dir ctx dropins tweaksEnabled reclaimStale = .ok plan) :
    ((changesOf plan.writes plan.removes).map Prod.fst).Nodup := by
  obtain ⟨-, -, hp⟩ := planGenerate_ok.1 h
  rw [hp]
  exact nodup_changesOf (nodup_targets ctx dropins tweaksEnabled reclaimStale)

theorem nodup_changes_removal {marks : Option (List Str)} {plan : RemovalPlan}
    (h : planRemoveAll dir marks = .ok plan) : ((changesOf [] plan.removes).map Prod.fst).Nodup := by
  obtain ⟨-, -, hp⟩ := planRemoveAll_ok.1 h
  rw [hp]
  simp only [changesOf, RemovalPlan.extend, List.map_nil, List.nil_append, List.map_map]
  have hid : (Prod.fst ∘ (fun r : PlannedRemove => (r.relname, (none : Option Str))) ∘ PlannedRemove.mk) = id := rfl
  rw [hid, List.map_id]
  exact nodup_selected.filter _

end

/-! ## Whole runs -/

theorem respects_refl (c : Call) (dir : Rung) : Respects c dir dir where
  paths _ h := absurd rfl h
  graph_kept _ _ h := h
  graph_owned _ _ _ _ h := absurd rfl h
  deleted_owned q _ data hd hnone := by rw [hnone] at hd; cases hd
  overwritten_owned _ _ _ _ h := absurd rfl h

/-- **One call**: it respects what it does not own, and the directory stays accounted for. -/
theorem call_step {dir : Rung} (ha : Accounted dir) (c : Call) :
    Respects c dir (c.run dir) ∧ Accounted (c.run dir) := by
  obtain ⟨m, hm, hs⟩ := load_of_accounted ha
  cases c with
  | generate ctx dropins tweaksEnabled reclaimStale faults =>
    cases hplan : planGenerate dir ctx dropins.toDropinInput tweaksEnabled reclaimStale with
    | error e =>
      simp only [Call.run, hplan]
      exact ⟨respects_refl _ dir, ha⟩
    | ok plan =>
      have hload := (planGenerate_ok.1 hplan).1
      obtain rfl := Except.ok.inj (hm.symm.trans hload)
      simp only [Call.run, hplan, applyGenerate_eq]
      split
      · have hperm := permitted_generate hplan
        have hnodup := nodup_changes_generate hplan
        refine ⟨respects_runBatch hm hnodup (fun c hc => (hperm c hc).1) (fun c hc => ?_) ?_,
          accounted_runBatch ha hs hnodup fun c hc => (hperm c hc).1⟩
        · have hname := (hperm c hc).2
          unfold Call.mayChange
          tauto
        · exact Or.inr (Or.inr (Or.inr rfl))
      · exact ⟨respects_refl _ dir, ha⟩
  | removeAll marks faults =>
    cases hplan : planRemoveAll dir marks with
    | error e =>
      simp only [Call.run, hplan]
      exact ⟨respects_refl _ dir, ha⟩
    | ok plan =>
      have hload := (planRemoveAll_ok.1 hplan).1
      obtain rfl := Except.ok.inj (hm.symm.trans hload)
      have hperm := permitted_removal hs hplan
      have hnodup := nodup_changes_removal hplan
      simp only [Call.run, hplan, applyRemoval_eq]
      exact ⟨respects_runBatch hm hnodup hperm (fun c hc => Or.inl (hperm c hc).managed) (Or.inr rfl),
        accounted_runBatch ha hs hnodup hperm⟩

/-- One step keeps the directory accounted for. -/
theorem accounted_step {dir : Rung} (ha : Accounted dir) (step : Step) : Accounted (step.run dir) := by
  cases step with
  | call c => exact (call_step ha c).2
  | edit relname data other =>
    have hfile : Function.update dir.files relname data manifestName = dir.files manifestName :=
      Function.update_of_ne other.symm _ _
    unfold Accounted Step.run
    dsimp only
    rw [hfile]
    exact ha

theorem accounted_runSteps {dir : Rung} (ha : Accounted dir) (steps : List Step) : Accounted (runSteps steps dir) := by
  induction steps generalizing dir with
  | nil => exact ha
  | cons step steps ih => exact ih (accounted_step ha step)

/-- **File ownership**: after any steps in a directory that began without a manifest, the manifest tells the
truth, and the next call respects what wsmr does not own. -/
theorem ownership {dir : Rung} (h : dir.files manifestName = none) (steps : List Step) :
    Truthful (runSteps steps dir) ∧ ∀ c : Call, Respects c (runSteps steps dir) (c.run (runSteps steps dir)) ∧
      Truthful (c.run (runSteps steps dir)) := by
  have ha := accounted_runSteps (Or.inl h) steps
  refine ⟨truthful_of_accounted ha, fun c => ?_⟩
  obtain ⟨hrespects, hnext⟩ := call_step ha c
  exact ⟨hrespects, truthful_of_accounted hnext⟩

/-- Sway, started by its absolute path. -/
def swayInput : ResolvedInput where
  id := "sway".toList
  idUnitString := "sway".toList
  binPath := "/usr/bin/wsmr".toList
  binName := "sway".toList
  name := none
  description := none
  desktopNames := ["sway".toList]
  cliDesktopNames := []
  cliDesktopNamesExclusive := false
  cmdline := ["/usr/bin/sway".toList]
  cliArgs := []
  wm_id := by decide
  unit_string := by decide

def usrBin : RenderCtx := ⟨"wsmr".toList, "/usr/bin/wsmr".toList, "waitpid".toList⟩

def emptyRung : Rung := ⟨"units".toList, fun _ => none, []⟩

/-- A generation whose manifest is not saved, then a foreign tweak. -/
def straySteps : List Step := [
  .call (.generate usrBin swayInput false false ⟨(· == manifestName), fun _ => true⟩),
  .edit "app-@autostart.service.d/slice-tweak.conf".toList (some (.text "[Service]".toList)) (by decide)]

/-- A generation that may reclaim the tweak. -/
def reclaiming : Call := .generate usrBin swayInput true true ⟨fun _ => false, fun _ => false⟩

theorem ownership_stray : Truthful (runSteps straySteps emptyRung) ∧
    Respects reclaiming (runSteps straySteps emptyRung) (reclaiming.run (runSteps straySteps emptyRung)) :=
  ⟨(@ownership emptyRung rfl straySteps).1, ((@ownership emptyRung rfl straySteps).2 reclaiming).1⟩

end Wsmr
