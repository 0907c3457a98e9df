import Wsmr.Units.Converge

/-!
# Generations that nothing gets in the way of

In a directory that only wsmr has written to (`Pristine`), a generation that may reclaim, and none of
whose changes fails, writes and records what is missing, and leaves everything else as it is.
-/

namespace Wsmr

open Text UndoLog

/-- Every file can be read, and the graph is missing or as `ctx` renders it. -/
structure Pristine (ctx : RenderCtx) (dir : Rung) : Prop where
  accounted : Accounted dir
  readable : ∀ q, dir.Readable q
  graph : ∀ unit ∈ graph, ∀ e, textOf (dir.files unit.name) = some e → e = render unit.body ctx

theorem pristine_emptyRung : Pristine usrBin emptyRung where
  accounted := Or.inl rfl
  readable _ h := by cases h
  graph _ _ _ h := by cases h

def noFaults : FsFaults := ⟨fun _ => false, fun _ => false⟩

/-- A generation as `start` makes it, without failures. -/
def generating (ctx : RenderCtx) (dropins : ResolvedInput) : Call := .generate ctx dropins false true noFaults

/-- What a conflict is about: a foreign file that may not be reclaimed. -/
theorem verdict_eq_conflict {m : Manifest} {t : Target} {existing : Option Str}
    (h : verdict m t existing = .conflict) : t.reclaim = false ∧
      ∃ e content, existing = some e ∧ t.wanted = some content ∧ e ≠ content := by
  unfold verdict at h
  split at h
  · cases h
  · cases h
  · rename_i e content hw
    split at h
    · cases h
    · rename_i hne
      split at h
      · cases h
      · split at h
        · cases h
        · rename_i hrec
          exact ⟨by simpa using hrec, e, content, rfl, hw, hne⟩
  · split at h <;> cases h

section
variable {ctx : RenderCtx} {dir : Rung} {dropins : ResolvedInput} {m : Manifest}

theorem no_conflict (h : Pristine ctx dir) {t : Target}
    (ht : t ∈ targets ctx dropins.toDropinInput false true) : verdictIn dir m t ≠ .conflict := by
  intro hv
  obtain ⟨hrec, e, content, he, hw, hne⟩ := verdict_eq_conflict hv
  unfold targets at ht
  simp only [List.mem_append, List.mem_map, List.mem_cons, List.not_mem_nil, or_false] at ht
  rcases ht with (⟨unit, hunit, rfl⟩ | ⟨_, _, rfl⟩) | rfl | rfl
  · obtain rfl := Option.some.inj hw
    exact hne (h.graph unit hunit e he)
  · cases hrec
  · cases hrec
  · cases hrec

variable (dropins) in
theorem planGenerate_pristine (h : Pristine ctx dir) (hm : Manifest.load dir = .ok m) :
    planGenerate dir ctx dropins.toDropinInput false true =
      .ok (GenerationPlan.extend ⟨[], [], [], [], m⟩ dir (targets ctx dropins.toDropinInput false true)) :=
  planGenerate_ok.2 ⟨hm, fun t _ => h.readable t.relname, rfl⟩

theorem conflicts_pristine (h : Pristine ctx dir) : (GenerationPlan.extend ⟨[], [], [], [], m⟩ dir
    (targets ctx dropins.toDropinInput false true)).conflicts = [] :=
  conflicts_extend_eq_nil.2 fun _ ht => no_conflict h ht

/-- The directory that such a generation leaves. -/
theorem run_generating (h : Pristine ctx dir) (hm : Manifest.load dir = .ok m) :
    (generating ctx dropins).run dir =
      if (batchOf dir m (targets ctx dropins.toDropinInput false true)).isEmpty then dir
      else (dir.putAll false (batchOf dir m (targets ctx dropins.toDropinInput false true))).put false manifestName
        (some (m.after (batchOf dir m (targets ctx dropins.toDropinInput false true)) []).render) := by
  have hthrough := @runBatch_through noFaults dir dir.path m
    (batchOf dir m (targets ctx dropins.toDropinInput false true)) [] fun _ _ => rfl
  rw [List.isEmpty_nil, Bool.and_true] at hthrough
  simp only [generating, Call.run, planGenerate_pristine dropins h hm, applyGenerate_eq,
    conflicts_pristine h, List.isEmpty_nil, if_true]
  refine (congrArg Prod.snd hthrough).trans ?_
  split
  · rename_i hempty
    rw [List.isEmpty_iff.1 hempty]
    rfl
  · rfl

/-- wsmr has written `content` there, and recorded it. -/
def Holds (dir : Rung) (q content : Str) : Prop :=
  dir.files q = some (.text content) ∧ ∃ m, Manifest.load dir = .ok m ∧ m.entries[q]? = some (fingerprint content)

theorem sound_of_load (h : Accounted dir) (hm : Manifest.load dir = .ok m) : Sound dir m := by
  obtain ⟨m', hm', hs⟩ := load_of_accounted h
  obtain rfl := Except.ok.inj (hm.symm.trans hm')
  exact hs

/-- The batch of the plan, and the manifest that it leaves. -/
theorem load_generated (h : Pristine ctx dir) (hm : Manifest.load dir = .ok m) :
    Manifest.load ((generating ctx dropins).run dir) =
      .ok (m.after (batchOf dir m (targets ctx dropins.toDropinInput false true)) []) := by
  have hplan := planGenerate_pristine dropins h hm
  have hperm := permitted_generate hplan
  rw [run_generating h hm]
  split
  · rename_i hempty
    rw [List.isEmpty_iff.1 hempty]
    exact hm
  · rw [load_of_text (Rung.files_put_self _ _ _ _), Manifest.parse_render]
    intro k hk
    obtain ⟨fp, hfp⟩ := Option.isSome_iff_exists.1 (Std.ExtTreeMap.mem_iff_isSome_getElem?.1 hk)
    rcases of_getElem?_after (nodup_changes_generate hplan) hfp with hold | ⟨content, hc, -⟩
    · exact (sound_of_load h.accounted hm k fp hold).1
    · exact (hperm _ hc).1.storable

theorem files_generated (h : Pristine ctx dir) (hm : Manifest.load dir = .ok m) {q : Str} (hq : q ≠ manifestName) :
    ((generating ctx dropins).run dir).files q =
      (dir.putAll false (batchOf dir m (targets ctx dropins.toDropinInput false true))).files q := by
  rw [run_generating h hm]
  split
  · rename_i hempty
    rw [List.isEmpty_iff.1 hempty]
    rfl
  · exact Rung.files_put_of_ne hq

/-- What is missing is written and recorded. -/
theorem holds_target (h : Pristine ctx dir) {t : Target}
    (ht : t ∈ targets ctx dropins.toDropinInput false true) {content : Str} (hw : t.wanted = some content)
    (hmissing : dir.files t.relname = none) : Holds ((generating ctx dropins).run dir) t.relname content := by
  obtain ⟨m, hm, -⟩ := load_of_accounted h.accounted
  have hnodup := nodup_targets ctx dropins.toDropinInput false true
  have hchange : (verdictIn dir m t).change t.relname = some (t.relname, some content) := by
    simp [verdictIn, hmissing, textOf, verdict, hw, Verdict.change]
  have hname : t.relname ≠ manifestName := fun he =>
    manifestName_not_mem_targets ctx dropins.toDropinInput false true (he ▸ List.mem_map_of_mem ht)
  refine ⟨?_, _, load_generated h hm, ?_⟩
  · rw [files_generated h hm hname]
    exact files_of_change hnodup ht hchange
  · exact @getElem?_foldl_track_of_mem _ (some content) _ _ (nodup_changesOf hnodup)
      (mem_changesOf.2 ⟨t, ht, hchange⟩)

theorem not_mem_batch {q : Str} (hother : q ∉ (targets ctx dropins.toDropinInput false true).map Target.relname) :
    q ∉ (batchOf dir m (targets ctx dropins.toDropinInput false true)).map Prod.fst := by
  intro hc
  obtain ⟨c, hc, he⟩ := List.mem_map.1 hc
  obtain ⟨t, ht, hchange⟩ := mem_changesOf.1 hc
  rw [← he, (of_change hchange).1] at hother
  exact hother (List.mem_map_of_mem ht)

/-- What is there under other names stays. -/
theorem files_other (h : Pristine ctx dir) {q : Str} (hq : q ≠ manifestName)
    (hother : q ∉ (targets ctx dropins.toDropinInput false true).map Target.relname) :
    ((generating ctx dropins).run dir).files q = dir.files q := by
  obtain ⟨m, hm, -⟩ := load_of_accounted h.accounted
  rw [files_generated h hm hq]
  exact files_of_no_change (not_mem_batch hother)

theorem holds_other (h : Pristine ctx dir) {q content : Str} (hq : q ≠ manifestName)
    (hother : q ∉ (targets ctx dropins.toDropinInput false true).map Target.relname) (hold : Holds dir q content) :
    Holds ((generating ctx dropins).run dir) q content := by
  obtain ⟨hfile, m, hm, hentry⟩ := hold
  refine ⟨?_, _, load_generated h hm, ?_⟩
  · rw [files_other h hq hother]
    exact hfile
  · exact (getElem?_foldl_track_of_not_mem (not_mem_batch hother)).trans hentry

variable (dropins) in
/-- Nothing gets in the way of the next generation either. -/
theorem pristine_generating (h : Pristine ctx dir) : Pristine ctx ((generating ctx dropins).run dir) := by
  obtain ⟨m, hm, -⟩ := load_of_accounted h.accounted
  have hnodup := nodup_targets ctx dropins.toDropinInput false true
  refine ⟨(call_step h.accounted _).2, fun q => ?_, fun unit hunit e he => ?_⟩
  · rw [run_generating h hm]
    split
    · exact h.readable q
    · exact Rung.readable_put (Rung.readable_putAll (h.readable q))
  · have ht : writeTarget unit.name (render unit.body ctx) ∈ targets ctx dropins.toDropinInput false true :=
      List.mem_append_left _ (List.mem_append_left _ (List.mem_map.2 ⟨unit, hunit, rfl⟩))
    have hname : unit.name ≠ manifestName := fun he =>
      manifestName_not_mem_targets ctx dropins.toDropinInput false true (he ▸ List.mem_map_of_mem ht)
    rw [files_generated h hm hname] at he
    rcases target_settled hnodup ht (h.readable _) (no_conflict (m := m) h ht) with ⟨content, hw, hfile⟩ | ⟨hw, -⟩
    · have hfile' : textOf ((dir.putAll false (batchOf dir m
          (targets ctx dropins.toDropinInput false true))).files unit.name) = some content := by
        show textOf ((dir.putAll false _).files (writeTarget unit.name (render unit.body ctx)).relname) = _
        rw [hfile]
        rfl
      rw [hfile'] at he
      obtain rfl := Option.some.inj he
      exact (Option.some.inj hw).symm
    · cases hw

variable (dropins) in
/-- **The same generation again** has nothing to do, when nothing unwanted was there. -/
theorem plan_again (h : Pristine ctx dir)
    (hmissing : ∀ t ∈ targets ctx dropins.toDropinInput false true, t.wanted = none → dir.files t.relname = none) :
    ∃ plan, planGenerate ((generating ctx dropins).run dir) ctx dropins.toDropinInput false true = .ok plan ∧
      plan.writes = [] ∧ plan.removes = [] ∧ plan.conflicts = [] := by
  obtain ⟨m, hm, -⟩ := load_of_accounted h.accounted
  have hnodup := nodup_targets ctx dropins.toDropinInput false true
  have hnext := pristine_generating dropins h
  refine planGenerate_of_keep (load_generated h hm) fun t ht => ⟨hnext.readable _, ?_⟩
  have hname : t.relname ≠ manifestName := fun he =>
    manifestName_not_mem_targets ctx dropins.toDropinInput false true (he ▸ List.mem_map_of_mem ht)
  unfold verdictIn
  rw [files_generated h hm hname]
  rcases target_settled hnodup ht (h.readable _) (no_conflict (m := m) h ht) with ⟨content, hw, hfile⟩ | ⟨hw, -⟩
  · rw [batchOf] at hfile
    rw [batchOf, hfile]
    exact verdict_of_wanted hw
  · have hkeep : (verdictIn dir m t).change t.relname = none := by
      rw [verdictIn, hmissing t ht hw, verdict_of_unwanted hw (by simp [textOf])]
      rfl
    rw [files_of_no_change (not_mem_batchOf hnodup ht hkeep), hmissing t ht hw]
    exact verdict_of_unwanted hw (by simp [textOf])

end

end Wsmr
