import Wsmr.Units.Converge

/-!
# Failed batches

When everything can be restored, a failed write or removal leaves the files as they were
(`runBatch_stopped_files`). A manifest that cannot be saved is not among the failures that are rolled back:
the files stay changed (`failed_batch_unchanged_iff`).
-/

namespace Wsmr

open Text Effects UndoLog

/-- The change would make no difference. -/
def Idle (dir : Rung) (c : Str × Option Str) : Prop := dir.files c.1 = c.2.map .text

theorem files_putAll_eq_iff {dir : Rung} {cs : List (Str × Option Str)} (hn : (cs.map Prod.fst).Nodup) :
    (dir.putAll false cs).files = dir.files ↔ ∀ c ∈ cs, Idle dir c := by
  have hkeys : ((Rung.toChanges cs).map Prod.fst).Nodup := by
    rw [Rung.keys_toChanges]
    exact hn
  rw [Rung.files_putAll]
  constructor
  · intro h c hc
    have hat := congrFun h c.1
    rw [apply_of_mem hkeys (List.mem_map_of_mem (f := fun c : Str × Option Str => (c.1, c.2.map FileData.text)) hc)] at hat
    exact hat.symm
  · intro h
    funext q
    rcases within_apply (d := dir.files) hkeys q with hq | hq
    · exact hq
    · obtain ⟨c, hc, he⟩ := List.mem_map.1 hq
      obtain ⟨rfl, hv⟩ := Prod.mk.inj he
      rw [← hv]
      exact (h c hc).symm

/-- A batch that returns an error, and what it leaves. -/
theorem runBatch_error_iff {dir dir' : Rung} {path : Str} {faults : FsFaults} {m : Manifest}
    {cs : List (Str × Option Str)} {forgotten : List Str} {e : Error} (hr : ∀ c ∈ cs, dir.Readable c.1)
    (hn : (cs.map Prod.fst).Nodup) (hrestore : ∀ q, faults.restore q = false)
    (h : runFs faults (runBatch path m cs forgotten) dir = (.error e, dir')) :
    dir'.files = dir.files ↔ (∃ c ∈ cs, faults.change c.1 = true) ∨ ∀ c ∈ cs, Idle dir c := by
  by_cases hstop : ∃ c ∈ cs, faults.change c.1 = true
  · have hfiles := runBatch_stopped_files path m forgotten hr hrestore hstop
    rw [h] at hfiles
    exact iff_of_true hfiles (Or.inl hstop)
  · have hthrough : ∀ c ∈ cs, faults.change c.1 = false := by simpa using hstop
    rw [or_iff_right hstop, ← files_putAll_eq_iff hn]
    rw [runBatch_through hthrough] at h
    split at h
    · cases h
    · split at h
      · obtain ⟨-, rfl⟩ := Prod.mk.inj h
        exact Iff.rfl
      · cases h

theorem readable_changes_generate {dir : Rung} {ctx : RenderCtx} {dropins : DropinInput}
    {tweaksEnabled reclaimStale : Bool} {plan : GenerationPlan}
    (h : planGenerate dir ctx dropins tweaksEnabled reclaimStale = .ok plan) :
    ∀ c ∈ changesOf plan.writes plan.removes, dir.Readable c.1 := by
  obtain ⟨-, hr, hp⟩ := planGenerate_ok.1 h
  intro c hc
  rw [hp] at hc
  obtain ⟨t, ht, hchange⟩ := mem_changesOf.1 hc
  exact (of_change hchange).1 ▸ hr t ht

theorem readable_changes_removal {dir : Rung} {marks : Option (List Str)} {plan : RemovalPlan}
    (h : planRemoveAll dir marks = .ok plan) : ∀ c ∈ changesOf [] plan.removes, dir.Readable c.1 := by
  obtain ⟨-, hr, hp⟩ := planRemoveAll_ok.1 h
  intro c hc
  rw [hp] at hc
  simp only [changesOf, RemovalPlan.extend, List.map_nil, List.nil_append, List.map_map, List.mem_map,
    Function.comp_apply] at hc
  obtain ⟨q, hq, rfl⟩ := hc
  exact hr q (List.mem_filter.1 hq).1

/-- **Errors of a batch**: they leave the files as they were if and only if a planned change was what failed
(or conflicts kept the batch from starting), or no planned change makes a difference. -/
theorem failed_batch_unchanged_iff {dir dir' : Rung} {faults : FsFaults} {e : Error}
    (hrestore : ∀ q, faults.restore q = false) :
    (∀ ctx dropins tweaksEnabled reclaimStale plan,
      planGenerate dir ctx dropins tweaksEnabled reclaimStale = .ok plan →
      runFs faults (applyGenerate dir.path plan) dir = (.error e, dir') →
      (dir'.files = dir.files ↔ plan.conflicts ≠ [] ∨
        (∃ c ∈ changesOf plan.writes plan.removes, faults.change c.1 = true) ∨
        ∀ c ∈ changesOf plan.writes plan.removes, Idle dir c)) ∧
    ∀ marks plan, planRemoveAll dir marks = .ok plan →
      runFs faults (applyRemoval dir.path plan) dir = (.error e, dir') →
      (dir'.files = dir.files ↔ (∃ c ∈ changesOf [] plan.removes, faults.change c.1 = true) ∨
        ∀ c ∈ changesOf [] plan.removes, Idle dir c) := by
  constructor
  · intro ctx dropins tweaksEnabled reclaimStale plan hplan hrun
    rw [applyGenerate_eq] at hrun
    split at hrun
    · rename_i hconf
      rw [or_iff_right (by simpa using hconf)]
      exact runBatch_error_iff (readable_changes_generate hplan) (nodup_changes_generate hplan) hrestore hrun
    · rename_i hconf
      obtain ⟨-, rfl⟩ := Prod.mk.inj hrun
      exact iff_of_true rfl (Or.inl (by simpa using hconf))
  · intro marks plan hplan hrun
    rw [applyRemoval_eq] at hrun
    exact runBatch_error_iff (readable_changes_removal hplan) (nodup_changes_removal hplan) hrestore hrun

/-! ## A manifest that cannot be saved -/

/-- A tweak as wsmr has written it, and its manifest. -/
def trackedRung : Rung := tweakRung (unlines [hexPadded 16 (fingerprint "x".toList).toNat ++ ' ' :: portalTweak])

def saveFails : FsFaults := ⟨(· == manifestName), fun _ => false⟩

def trackedManifest : Manifest :=
  .parse (unlines [hexPadded 16 (fingerprint "x".toList).toNat ++ ' ' :: portalTweak])

def trackedPlan : RemovalPlan := ⟨[⟨portalTweak⟩], [], trackedManifest⟩

theorem toList_trackedManifest : trackedManifest.entries.toList = [(portalTweak, fingerprint "x".toList)] := by
  unfold trackedManifest portalTweak
  repeat rw [String.toList_ofList]
  decide

theorem selected_trackedManifest : selected trackedManifest none = [portalTweak] := by
  have htweak : isTweak portalTweak = true := by
    obtain ⟨tweak, htweak, hname⟩ := List.mem_map.1 portalTweak_mem
    exact List.any_eq_true.2 ⟨tweak, htweak, beq_iff_eq.2 hname⟩
  have hdropin : isRemovableDropin portalTweak = true := by rw [isRemovableDropin, htweak, Bool.true_or]
  unfold selected Manifest.tracked
  rw [← Std.ExtTreeMap.map_fst_toList_eq_keys, toList_trackedManifest, List.map_singleton, List.filter_cons_of_pos hdropin]
  rfl

/-- The removal is tried, and the manifest is not saved. -/
theorem run_trackedRung : (runFs saveFails (applyRemoval trackedRung.path trackedPlan) trackedRung).1 =
      .error (.io (joinPath trackedRung.path manifestName)) ∧
    (runFs saveFails (applyRemoval trackedRung.path trackedPlan) trackedRung).2.files portalTweak = none := by
  unfold trackedRung tweakRung trackedPlan trackedManifest portalTweak saveFails manifestName
  repeat rw [String.toList_ofList]
  decide

theorem planRemoveAll_trackedRung : planRemoveAll trackedRung none = .ok trackedPlan := by
  have hload : Manifest.load trackedRung = .ok trackedManifest := load_tweakRung _
  have hremovable : removable trackedRung trackedManifest portalTweak = true := by
    unfold removable trackedRung tweakRung trackedManifest portalTweak
    repeat rw [String.toList_ofList]
    decide
  have hplan : trackedPlan = RemovalPlan.extend ⟨[], [], trackedManifest⟩ trackedRung (selected trackedManifest none) := by
    simp only [selected_trackedManifest, RemovalPlan.extend, trackedPlan, List.filter_cons, hremovable, if_true,
      List.filter_nil, List.map_cons, List.map_nil, List.nil_append, Bool.not_true, Bool.false_eq_true, if_false]
  exact planRemoveAll_ok.2 ⟨hload, fun n _ => readable_tweakRung _ n, hplan⟩

theorem failed_batch_unchanged_iff_tracked :
    (runFs saveFails (applyRemoval trackedRung.path trackedPlan) trackedRung).2.files = trackedRung.files ↔
      (∃ c ∈ changesOf [] trackedPlan.removes, saveFails.change c.1 = true) ∨
        ∀ c ∈ changesOf [] trackedPlan.removes, Idle trackedRung c :=
  (@failed_batch_unchanged_iff trackedRung _ saveFails (.io (joinPath trackedRung.path manifestName))
    fun _ => rfl).2 none trackedPlan planRemoveAll_trackedRung (Prod.ext run_trackedRung.1 rfl)

/-- The tweak is removed, the manifest is not saved, and the tweak stays removed. -/
theorem unsaved_removal_stays : ∃ plan e dir', planRemoveAll trackedRung none = .ok plan ∧
    runFs saveFails (applyRemoval trackedRung.path plan) trackedRung = (.error e, dir') ∧
    (∀ q, saveFails.restore q = false) ∧ dir'.files ≠ trackedRung.files := by
  refine ⟨trackedPlan, .io (joinPath trackedRung.path manifestName),
    (runFs saveFails (applyRemoval trackedRung.path trackedPlan) trackedRung).2, planRemoveAll_trackedRung,
    Prod.ext run_trackedRung.1 rfl, fun _ => rfl, fun h => ?_⟩
  have hthere : trackedRung.files portalTweak = some (.text "x".toList) := files_portalTweak _
  exact absurd (hthere.symm.trans ((congrFun h portalTweak).symm.trans run_trackedRung.2)) nofun

end Wsmr
