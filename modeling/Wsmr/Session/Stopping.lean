import Wsmr.Lib.Poll
import Wsmr.Lib.Stateful
import Wsmr.Session.Start
import Wsmr.Session.Stop

/-!
# The `stop` command (`src/session/stop.rs`)

`stop` asks systemd to stop the compositor, waits until the stop job is gone, and with `-r` removes the
drop-ins that wsmr has generated. Nothing is removed under a compositor that may still run
(`stop_order`), and `--dry-run` changes nothing and tells what would be removed (`stop_dryRun_predicts`).
-/

namespace Wsmr

open Text Effects UndoLog

/-- In nanoseconds. -/
def milliseconds (n : Nat) : Nat := n * 1000000

/-- `wait_for_job`, which looks at the paths of the jobs. -/
def waitForJob (job unit : Str) : Poll.Wait (Except Error (List Str)) (Except Error Unit) where
  judge
    | .error e => some (.error e)
    | .ok jobs => if jobs.contains job then none else some (.ok ())
  giveUp _ := .error (.resolve ("timed out after 20s waiting for ".toList ++ unit ++
    "'s systemd job to complete".toList))
  timeout := milliseconds 20000
  nap := milliseconds 100
  nap_pos := by decide

/-- The answers of the session bus. -/
structure StopBus where
  /-- The active and activating compositor units. -/
  units : Except Error (List Str)
  /-- The stop job of a unit. -/
  stopUnit : Str → Except Error Str
  jobs : Poll.Looks (Except Error (List Str)) (milliseconds 100)
  reload : Except Error Unit

structure StopOpts where
  dryRun : Bool
  remove : Option Str

inductive StopEvent where
  | stopRequested (unit : Str)
  | changed (relname : Str)
  | reloaded
  deriving DecidableEq

structure Stopping where
  dir : Rung
  /-- Newest first. -/
  events : List StopEvent
  stdout : List Str
  stderr : List Str

abbrev StopIo (α : Type) := Stateful.Io Error Stopping α

def Stopping.println (line : Str) : StopIo Unit := fun s => (.ok (), { s with stdout := s.stdout ++ [line] })

def Stopping.eprintln (line : Str) : StopIo Unit := fun s => (.ok (), { s with stderr := s.stderr ++ [line] })

def StopBus.requestStop (bus : StopBus) (unit : Str) : StopIo Str := fun s =>
  (bus.stopUnit unit, if (bus.stopUnit unit).isOk then { s with events := .stopRequested unit :: s.events } else s)

def StopBus.reloadUnits (bus : StopBus) : StopIo Unit := fun s =>
  (bus.reload, if bus.reload.isOk then { s with events := .reloaded :: s.events } else s)

/-- Unit files that have changed. -/
def changedFiles (dir dir' : Rung) : List StopEvent :=
  (gained dir dir').filterMap fun e => match e with
    | .changed relname => some (.changed relname)
    | _ => none

/-- Work on the directory. -/
def inDir {α : Type} (faults : FsFaults) (p : FsIo α) : StopIo α := fun s =>
  let r := runFs faults p s.dir
  (r.1, { s with dir := r.2, events := changedFiles s.dir r.2 ++ s.events })

def stopLine (unit : Str) : Str := "Would stop ".toList ++ unit ++ ".".toList

def stopWm (bus : StopBus) (dryRun : Bool) : StopIo Bool := do
  match ← bus.units with
  | [] => return false
  | unit :: _ =>
    if dryRun then
      Stopping.println (stopLine unit)
      return true
    let job ← bus.requestStop unit
    (waitForJob job unit).await bus.jobs
    return true

def removalLine (relname : Str) : Str := "  - ".toList ++ relname

/-- The lines of `report_removal_plan`. -/
def removalReport (path : Str) (plan : RemovalPlan) : List Str :=
  ("Dry run: removal in ".toList ++ path) ::
    if plan.removes.isEmpty && plan.skipped.isEmpty then ["  (nothing to remove)".toList]
    else plan.removes.map (fun r => removalLine r.relname) ++
      plan.skipped.map (fun s => "  ! ".toList ++ s.relname ++ " (left in place — ".toList ++ s.reason ++ ")".toList) ++
      if plan.removes.isEmpty then [] else ["  (would reload the systemd user manager)".toList]

def reportRemovalPlan (path : Str) (plan : RemovalPlan) : StopIo PUnit :=
  forM (removalReport path plan) Stopping.println

/-- `-r`, after the compositor has been stopped. -/
def removeUnits (bus : StopBus) (dryRun : Bool) (faults : FsFaults) (raw : Str) : StopIo PUnit := do
  let dir := (← get).dir
  let plan ← planRemoveAll dir (parseMarks raw)
  if dryRun then reportRemovalPlan dir.path plan
  else do
    forM plan.skipped fun skipped =>
      Stopping.eprintln ("warning: leaving ".toList ++ skipped.relname ++ " untouched — ".toList ++ skipped.reason)
    let outcome ← inDir faults (applyRemoval dir.path plan)
    forM outcome.removed fun relname => Stopping.println (removalLine relname)
    if outcome.changed then bus.reloadUnits

def runStop (bus : StopBus) (opts : StopOpts) (faults : FsFaults) : StopIo PUnit := do
  let stopped ← stopWm bus opts.dryRun
  if !stopped then Stopping.println "Compositor is not running.".toList
  match opts.remove with
  | none => return ⟨⟩
  | some raw => removeUnits bus opts.dryRun faults raw


/-! ## What each part does -/

section
variable {bus : StopBus} {s : Stopping} {faults : FsFaults} {dir : Rung}

theorem forM_println {α : Type} (line : α → Str) (xs : List α) :
    (forM xs fun x => Stopping.println (line x)) s = (.ok ⟨⟩, { s with stdout := s.stdout ++ xs.map line }) :=
  Stateful.run_forM (fun (s : Stopping) xs => { s with stdout := s.stdout ++ xs.map line }) (by simp)
    (by simp [Stopping.println]) xs

theorem forM_eprintln {α : Type} (line : α → Str) (xs : List α) :
    (forM xs fun x => Stopping.eprintln (line x)) s = (.ok ⟨⟩, { s with stderr := s.stderr ++ xs.map line }) :=
  Stateful.run_forM (fun (s : Stopping) xs => { s with stderr := s.stderr ++ xs.map line }) (by simp)
    (by simp [Stopping.eprintln]) xs

/-- No compositor was listed, or the job that stops it was seen to be gone: by a look before which all others were in
time. -/
inductive Halted (bus : StopBus) : Prop where
  | idle (hunits : bus.units = .ok [])
  | stopped {unit job : Str} {others jobs : List Str} {k : Nat} (hunits : bus.units = .ok (unit :: others))
      (hjob : bus.stopUnit unit = .ok job) (hgone : (bus.jobs.see k).1 = .ok jobs ∧ job ∉ jobs)
      (hbefore : ∀ i < k, (bus.jobs.see i).2 < milliseconds 20000 ∧
        ∃ queued, (bus.jobs.see i).1 = .ok queued ∧ job ∈ queued)

theorem waitForJob_ok {job unit : Str} (h : (waitForJob job unit).await bus.jobs = .ok ()) :
    ∃ k jobs, ((bus.jobs.see k).1 = .ok jobs ∧ job ∉ jobs) ∧
      ∀ i < k, (bus.jobs.see i).2 < milliseconds 20000 ∧ ∃ queued, (bus.jobs.see i).1 = .ok queued ∧ job ∈ queued := by
  obtain ⟨k, -, hlast, hresult⟩ := (waitForJob job unit).await_spec bus.jobs
  rw [hresult] at h
  obtain ⟨jobs, hjobs⟩ : ∃ jobs, (bus.jobs.see k).1 = .ok jobs ∧ job ∉ jobs := by
    unfold Poll.Wait.result waitForJob at h
    cases hlook : (bus.jobs.see k).1 with
    | error e =>
      rw [hlook] at h
      cases h
    | ok jobs =>
      refine ⟨jobs, rfl, fun hmem => ?_⟩
      simp only [hlook, List.contains_iff_mem.2 hmem, if_true, Option.getD_none] at h
      cases h
  refine ⟨k, jobs, hjobs, fun i hi => ?_⟩
  obtain ⟨hundecided, hintime⟩ := Poll.Wait.not_ends.1 (hlast.first i hi)
  refine ⟨hintime, ?_⟩
  cases hlook : (bus.jobs.see i).1 with
  | error e => simp [waitForJob, hlook] at hundecided
  | ok queued =>
    refine ⟨queued, rfl, ?_⟩
    by_contra hmem
    simp [waitForJob, hlook, hmem] at hundecided

/-- The stop of the first compositor that was listed, or none. -/
def MayRequest (bus : StopBus) (request : Option Str) : Prop :=
  ∀ unit, request = some unit → ∃ others, bus.units = .ok (unit :: others)

/-- Asking for the stop, and waiting. -/
theorem stopWm_real : ∃ request, MayRequest bus request ∧
    (stopWm bus false s).2 = { s with events := (request.map StopEvent.stopRequested).toList ++ s.events } ∧
    ∀ stopped, (stopWm bus false s).1 = .ok stopped → Halted bus ∧ (stopped = true ↔ bus.units ≠ .ok []) := by
  unfold stopWm
  rw [Stateful.run_bind, Stateful.run_lift]
  cases hunits : bus.units with
  | error e => exact ⟨none, nofun, rfl, fun stopped h => by cases h⟩
  | ok units =>
    cases units with
    | nil =>
      refine ⟨none, nofun, rfl, fun stopped h => ⟨.idle hunits, ?_⟩⟩
      obtain rfl : stopped = false := (Except.ok.inj h).symm
      simp
    | cons unit others =>
      simp only [Bool.false_eq_true, if_false]
      rw [Stateful.run_bind, StopBus.requestStop]
      cases hjob : bus.stopUnit unit with
      | error e => exact ⟨none, nofun, rfl, fun stopped h => by cases h⟩
      | ok job =>
        have hrequest : MayRequest bus (some unit) := fun unit' h => by
          obtain rfl := Option.some.inj h
          exact ⟨others, hunits⟩
        refine ⟨some unit, hrequest, ?_, fun stopped h => ?_⟩
        · simp only [Except.isOk, Except.toBool, if_true]
          rw [Stateful.run_bind, Stateful.run_lift]
          cases (waitForJob job unit).await bus.jobs <;> rfl
        · simp only [Except.isOk, Except.toBool, if_true] at h
          rw [Stateful.run_bind, Stateful.run_lift] at h
          cases hwait : (waitForJob job unit).await bus.jobs with
          | error e =>
            rw [hwait] at h
            cases h
          | ok _ =>
            rw [hwait] at h
            obtain rfl : stopped = true := (Except.ok.inj h).symm
            obtain ⟨k, jobs, hgone, hbefore⟩ := waitForJob_ok hwait
            exact ⟨.stopped hunits hjob hgone hbefore, by simp⟩

/-- The compositor that is to be stopped. -/
def StopBus.unit (bus : StopBus) : Option Str := bus.units.toOption.bind List.head?

/-- A dry run only looks for a compositor. -/
theorem stopWm_dry : stopWm bus true s = (bus.units.map fun units => !units.isEmpty,
    { s with stdout := s.stdout ++ (bus.unit.map stopLine).toList }) := by
  unfold stopWm StopBus.unit
  rw [Stateful.run_bind, Stateful.run_lift]
  cases bus.units with
  | error e => simp [Except.toOption, Except.map]
  | ok units =>
    cases units <;>
      simp [Except.toOption, Except.map, Stateful.run_pure, Stateful.run_bind, Stopping.println]

/-- Once it has stopped, all that was done is that it was asked to. -/
theorem stopWm_halted (h : Halted bus) : stopWm bus false s = (bus.units.map fun units => !units.isEmpty,
    { s with events := (bus.unit.map StopEvent.stopRequested).toList ++ s.events }) := by
  unfold stopWm StopBus.unit
  rw [Stateful.run_bind, Stateful.run_lift]
  cases h with
  | idle hunits =>
    rw [hunits]
    rfl
  | @stopped unit job others jobs k hunits hjob hgone hbefore =>
    have hlast : (waitForJob job unit).Last bus.jobs.see k := by
      refine ⟨Or.inl ?_, fun i hi => ?_⟩
      · simp [waitForJob, hgone.1, hgone.2]
      · obtain ⟨hintime, queued, hlook, hmem⟩ := hbefore i hi
        exact Poll.Wait.not_ends.2 ⟨by simp [waitForJob, hlook, hmem], hintime⟩
    have hwait : (waitForJob job unit).await bus.jobs = .ok () := by
      rw [Poll.Wait.await_eq hlast]
      simp [Poll.Wait.result, waitForJob, hgone.1, hgone.2]
    rw [hunits]
    simp only [Bool.false_eq_true, if_false]
    rw [Stateful.run_bind, StopBus.requestStop, hjob]
    simp only [Except.isOk, Except.toBool, if_true]
    rw [Stateful.run_bind, Stateful.run_lift, hwait]
    rfl

theorem removeUnits_dry (raw : Str) : removeUnits bus true faults raw s =
    match planRemoveAll s.dir (parseMarks raw) with
    | .ok plan => (.ok ⟨⟩, { s with stdout := s.stdout ++ removalReport s.dir.path plan })
    | .error e => (.error e, s) := by
  unfold removeUnits reportRemovalPlan
  rw [Stateful.run_bind]
  show ((liftM (planRemoveAll s.dir (parseMarks raw)) : StopIo _) >>= fun plan => _) s = _
  rw [Stateful.run_bind, Stateful.run_lift]
  cases planRemoveAll s.dir (parseMarks raw) with
  | error e => rfl
  | ok plan =>
    have hprint := @forM_println s Str id (removalReport s.dir.path plan)
    simpa using hprint

theorem removeUnits_unplanned {raw : Str} {e : Error} (hplan : planRemoveAll s.dir (parseMarks raw) = .error e) :
    removeUnits bus false faults raw s = (.error e, s) := by
  unfold removeUnits
  rw [Stateful.run_bind]
  show ((liftM (planRemoveAll s.dir (parseMarks raw)) : StopIo _) >>= fun plan => _) s = _
  rw [Stateful.run_bind, Stateful.run_lift, hplan]

/-- The reload that comes after a removal. -/
def reloadAfter (bus : StopBus) (outcome : GenOutcome) : List StopEvent :=
  if outcome.changed && bus.reload.isOk then [.reloaded] else []

theorem removeUnits_real {raw : Str} {plan : RemovalPlan} (hplan : planRemoveAll s.dir (parseMarks raw) = .ok plan) :
    ∃ warnings, removeUnits bus false faults raw s =
      let r := runFs faults (applyRemoval s.dir.path plan) s.dir
      match r.1 with
      | .error e =>
        (.error e, ⟨r.2, changedFiles s.dir r.2 ++ s.events, s.stdout, s.stderr ++ warnings⟩)
      | .ok outcome =>
        (if outcome.changed then bus.reload else .ok (),
          ⟨r.2, reloadAfter bus outcome ++ (changedFiles s.dir r.2 ++ s.events),
            s.stdout ++ outcome.removed.map removalLine, s.stderr ++ warnings⟩) := by
  refine ⟨plan.skipped.map fun skipped =>
    "warning: leaving ".toList ++ skipped.relname ++ " untouched — ".toList ++ skipped.reason, ?_⟩
  unfold removeUnits
  rw [Stateful.run_bind]
  show ((liftM (planRemoveAll s.dir (parseMarks raw)) : StopIo _) >>= fun plan => _) s = _
  rw [Stateful.run_bind, Stateful.run_lift, hplan]
  simp only [Bool.false_eq_true, if_false]
  rw [Stateful.run_bind, forM_eprintln]
  dsimp only
  rw [Stateful.run_bind]
  unfold inDir
  dsimp only
  cases runFs faults (applyRemoval s.dir.path plan) s.dir with
  | mk result dir' =>
    cases result with
    | error e => rfl
    | ok outcome =>
      dsimp only
      rw [Stateful.run_bind, forM_println]
      dsimp only
      unfold reloadAfter
      cases outcome.changed with
      | false => rfl
      | true =>
        simp only [if_true, StopBus.reloadUnits, Bool.true_and]
        cases hr : bus.reload.isOk <;> simp

end

/-! ## What a removal does -/

section
variable {faults : FsFaults} {dir : Rung} {path : Str} {marks : Option (List Str)} {plan : RemovalPlan}

theorem manifestName_not_removable : isRemovableDropin manifestName = false := by
  have htweak : isTweak manifestName = false := by
    rw [isTweak, List.any_eq_false]
    intro tweak htweak he
    refine manifestName_not_mem_staticNames (List.mem_append_right _ ?_)
    exact beq_iff_eq.1 he ▸ List.mem_map_of_mem htweak
  rw [isRemovableDropin, htweak, Bool.false_or, isCompositorDropin, decide_eq_false not_suffix_manifestName,
    Bool.false_and]

/-- What a removal plan is to remove has been selected. -/
theorem names_of_removal (h : planRemoveAll dir marks = .ok plan) {q : Str}
    (hq : q ∈ plan.removes.map PlannedRemove.relname) : q ≠ manifestName ∧ dir.Readable q := by
  obtain ⟨-, hr, hp⟩ := planRemoveAll_ok.1 h
  rw [hp] at hq
  simp only [RemovalPlan.extend, List.nil_append, List.map_map, Function.comp_def, List.map_id'] at hq
  have hsel := (List.mem_filter.1 hq).1
  refine ⟨?_, hr q hsel⟩
  rintro rfl
  have hremovable := (mem_selected hsel).2
  rw [manifestName_not_removable] at hremovable
  cases hremovable

theorem keys_of_removal : (changesOf [] plan.removes).map Prod.fst = plan.removes.map PlannedRemove.relname := by
  simp [changesOf, Function.comp_def]

theorem pushAll_removed {removes : List PlannedRemove} {b : Batch} :
    (b.pushAll (changesOf [] removes) dir).out.removed = b.out.removed ++ removes.map PlannedRemove.relname := by
  induction removes generalizing b dir with
  | nil => simp [changesOf, Batch.pushAll]
  | cons r removes ih =>
    have hcons : changesOf [] (r :: removes) = (r.relname, none) :: changesOf [] removes := rfl
    rw [hcons, Batch.pushAll, ih]
    simp [Batch.push]

/-- **Whatever fails**, a removal only removes what was planned. -/
theorem files_applyRemoval (h : planRemoveAll dir marks = .ok plan) {q : Str} (hq : q ≠ manifestName)
    (hne : (runFs faults (applyRemoval path plan) dir).2.files q ≠ dir.files q) :
    q ∈ plan.removes.map PlannedRemove.relname ∧ (runFs faults (applyRemoval path plan) dir).2.files q = none := by
  have hkeys := @keys_of_removal plan
  have hr : ∀ c ∈ changesOf [] plan.removes, dir.Readable c.1 := fun c hc =>
    (names_of_removal h (hkeys ▸ List.mem_map_of_mem hc)).2
  have hm : manifestName ∉ (changesOf [] plan.removes).map Prod.fst := fun hm =>
    (names_of_removal h (hkeys ▸ hm)).1 rfl
  rw [applyRemoval_eq] at hne ⊢
  have hwithin := (runBatch_within faults path plan.manifest (plan.skipped.map Conflict.relname) hr
    (nodup_changes_removal h) hm).1 q hq
  have hmem := hwithin.resolve_left hne
  simp only [changesOf, Rung.toChanges, List.map_nil, List.nil_append, List.map_map, List.mem_map,
    Function.comp_apply, Prod.mk.injEq, Option.map_none] at hmem
  obtain ⟨r, hr, rfl, hnone⟩ := hmem
  exact ⟨List.mem_map_of_mem hr, hnone.symm⟩

/-- A removal that works has made every planned change. -/
theorem applyRemoval_ok {out : GenOutcome} (h : planRemoveAll dir marks = .ok plan)
    (hok : (runFs faults (applyRemoval path plan) dir).1 = .ok out) :
    out.removed = plan.removes.map PlannedRemove.relname ∧ out.changed = !plan.removes.isEmpty ∧
      changedFiles dir (runFs faults (applyRemoval path plan) dir).2 =
        (plan.removes.map fun r => StopEvent.changed r.relname).reverse := by
  rw [applyRemoval_eq] at hok ⊢
  have hthrough : ∀ c ∈ changesOf [] plan.removes, faults.change c.1 = false := by
    by_contra hstop
    simp only [not_forall, Bool.not_eq_false] at hstop
    obtain ⟨c, hc, hf⟩ := hstop
    obtain ⟨_, _, _, _, _, _, hrun⟩ := runBatch_stopped dir path plan.manifest (plan.skipped.map Conflict.relname)
      ⟨c, hc, hf⟩
    rw [hrun] at hok
    cases hok
  have hchanged : ((Batch.start plan.manifest).pushAll (changesOf [] plan.removes) dir).out.changed =
      !plan.removes.isEmpty := by
    rw [pushAll_changed]
    simp [Batch.start, changesOf]
  -- the manifest is no unit file
  have hgained : ∀ l, (∀ c ∈ l, c.relname = manifestName) → ∀ {dir' : Rung},
      dir'.log = l ++ (dir.putAll false (changesOf [] plan.removes)).log →
      changedFiles dir dir' = (plan.removes.map fun r => StopEvent.changed r.relname).reverse := by
    intro l hl dir' hlog
    have hnames : ∀ r ∈ plan.removes, r.relname ≠ manifestName := fun r hr =>
      (names_of_removal h (List.mem_map_of_mem hr)).1
    have hkept : (plan.removes.filter fun r => decide (r.relname ≠ manifestName)) = plan.removes :=
      List.filter_eq_self.2 fun r hr => by simpa using hnames r hr
    have hdropped : (l.filter fun c => decide (c.relname ≠ manifestName)) = [] :=
      List.filter_eq_nil_iff.2 fun c hc => by simpa using hl c hc
    rw [Rung.log_putAll, ← List.append_assoc] at hlog
    unfold changedFiles
    rw [gained_append hlog, List.filter_append, hdropped, List.nil_append]
    simp only [changesOf, List.map_nil, List.nil_append, List.map_map, List.filter_reverse, List.filter_map,
      Function.comp_def, hkept, List.map_reverse, List.filterMap_reverse, List.filterMap_map, List.filterMap_eq_map']
  have hrun := @runBatch_through faults dir path plan.manifest _ (plan.skipped.map Conflict.relname) hthrough
  rw [hrun] at hok ⊢
  split at hok
  · rename_i hempty
    rw [if_pos hempty]
    obtain rfl := Except.ok.inj hok
    exact ⟨pushAll_removed, hchanged, hgained [] (by simp) rfl⟩
  · rename_i hsome
    rw [if_neg hsome]
    split at hok
    · cases hok
    · rename_i hsaved
      rw [if_neg hsaved]
      obtain rfl := Except.ok.inj hok
      exact ⟨pushAll_removed, hchanged, hgained [⟨false, manifestName, _⟩] (by simp) rfl⟩

/-- Without failures, a removal removes what was planned. -/
theorem applyRemoval_noFaults (h : planRemoveAll dir marks = .ok plan) :
    (∃ out, (runFs noFaults (applyRemoval path plan) dir).1 = .ok out) ∧
      ∀ q ∈ plan.removes.map PlannedRemove.relname, (runFs noFaults (applyRemoval path plan) dir).2.files q = none := by
  have hn : ((Rung.toChanges (changesOf [] plan.removes)).map Prod.fst).Nodup := by
    rw [Rung.keys_toChanges]
    exact nodup_changes_removal h
  have hfiles : ∀ q ∈ plan.removes.map PlannedRemove.relname,
      (dir.putAll false (changesOf [] plan.removes)).files q = none := by
    intro q hq
    obtain ⟨r, hr, rfl⟩ := List.mem_map.1 hq
    rw [Rung.files_putAll]
    refine apply_of_mem hn (List.mem_map.2 ⟨(r.relname, none), ?_, rfl⟩)
    exact List.mem_map.2 ⟨r, hr, rfl⟩
  have hrun := @runBatch_through noFaults dir path plan.manifest (changesOf [] plan.removes)
    (plan.skipped.map Conflict.relname) fun c _ => rfl
  rw [applyRemoval_eq, hrun]
  split
  · exact ⟨⟨_, rfl⟩, hfiles⟩
  · refine ⟨⟨_, rfl⟩, fun q hq => ?_⟩
    exact (Rung.files_put_of_ne (names_of_removal h hq).1).trans (hfiles q hq)

end

/-! ## The order of a stop -/

section
variable {bus : StopBus} {opts : StopOpts} {faults : FsFaults} {s : Stopping} {dir : Rung}

/-- What is told when no compositor was found. -/
def notRunning (stopped : Bool) : List Str := if stopped then [] else ["Compositor is not running.".toList]

theorem runStop_eq : runStop bus opts faults s =
    match stopWm bus opts.dryRun s with
    | (.error e, t) => (.error e, t)
    | (.ok stopped, t) =>
      let t' := { t with stdout := t.stdout ++ notRunning stopped }
      match opts.remove with
      | none => (.ok ⟨⟩, t')
      | some raw => removeUnits bus opts.dryRun faults raw t' := by
  unfold runStop notRunning
  rw [Stateful.run_bind]
  obtain ⟨result, t⟩ := stopWm bus opts.dryRun s
  cases result with
  | error e => rfl
  | ok stopped =>
    cases stopped with
    | true =>
      simp only [Bool.not_true, Bool.false_eq_true, if_false, if_true, List.append_nil]
      cases opts.remove <;> rfl
    | false =>
      simp only [Bool.not_false, if_true, Bool.false_eq_true, if_false]
      rw [Stateful.run_bind]
      cases opts.remove <;> rfl

theorem of_mem_changedFiles {dir' : Rung} {e : StopEvent} (h : e ∈ changedFiles dir dir') : ∃ q, e = .changed q := by
  obtain ⟨u, hu, he⟩ := List.mem_filterMap.1 h
  obtain ⟨q, rfl⟩ := of_mem_gained hu
  exact ⟨q, (Option.some.inj he).symm⟩

/-- A dry run prints, and does nothing else. -/
theorem runStop_dry (hdry : opts.dryRun = true) :
    (runStop bus opts faults s).2.dir = s.dir ∧ (runStop bus opts faults s).2.events = s.events := by
  rw [runStop_eq, hdry, stopWm_dry]
  cases bus.units.map fun units => !units.isEmpty with
  | error e => exact ⟨rfl, rfl⟩
  | ok stopped =>
    cases opts.remove with
    | none => exact ⟨rfl, rfl⟩
    | some raw =>
      dsimp only
      rw [removeUnits_dry]
      split <;> exact ⟨rfl, rfl⟩

/-- What holds after a `stop` that began with the directory `dir`. -/
structure StopOrder (bus : StopBus) (opts : StopOpts) (dir : Rung) (r : Except Error PUnit × Stopping) : Prop where
  /-- At most one request, then changes, then at most one reload; newest first. -/
  phases : ∃ request changes reloads, r.2.events = reloads ++ (changes ++ (request.map StopEvent.stopRequested).toList) ∧
    MayRequest bus request ∧ (∀ e ∈ changes, ∃ q, e = .changed q) ∧ (reloads = [] ∨ reloads = [.reloaded])
  /-- Files are removed after the compositor, and as planned. -/
  removed : r.2.dir ≠ dir → opts.dryRun = false ∧ Halted bus ∧ ∃ raw plan, opts.remove = some raw ∧
    planRemoveAll dir (parseMarks raw) = .ok plan ∧ ∀ q, q ≠ manifestName → r.2.dir.files q ≠ dir.files q →
      q ∈ plan.removes.map PlannedRemove.relname ∧ r.2.dir.files q = none
  reloads : r.1 = .ok ⟨⟩ → ∀ q, .changed q ∈ r.2.events → .reloaded ∈ r.2.events

theorem changed_not_mem_request {request : Option Str} {q : Str} :
    StopEvent.changed q ∉ (request.map StopEvent.stopRequested).toList := by
  cases request <;> simp

theorem stopOrder_idle {r : Except Error PUnit × Stopping} {request : Option Str} (hdir : r.2.dir = dir)
    (hrequest : MayRequest bus request) (hevents : r.2.events = (request.map StopEvent.stopRequested).toList) :
    StopOrder bus opts dir r where
  phases := ⟨request, [], [], by simpa using hevents, hrequest, by simp, Or.inl rfl⟩
  removed hne := absurd hdir hne
  reloads _ q hq := absurd (hevents ▸ hq) changed_not_mem_request

/-- Removing, after the compositor was stopped. -/
theorem stopOrder_removeUnits {raw : Str} {request : Option Str} (hdry : opts.dryRun = false) (hhalted : Halted bus)
    (hremove : opts.remove = some raw) (hrequest : MayRequest bus request)
    (hevents : s.events = (request.map StopEvent.stopRequested).toList) :
    StopOrder bus opts s.dir (removeUnits bus false faults raw s) := by
  cases hplan : planRemoveAll s.dir (parseMarks raw) with
  | error e =>
    rw [removeUnits_unplanned hplan]
    exact stopOrder_idle rfl hrequest hevents
  | ok plan =>
    obtain ⟨warnings, hrun⟩ := @removeUnits_real bus s faults raw plan hplan
    have hfiles : ∀ q, q ≠ manifestName →
        (runFs faults (applyRemoval s.dir.path plan) s.dir).2.files q ≠ s.dir.files q → _ :=
      fun q hq hne => files_applyRemoval hplan hq hne
    have hchanged := fun out => @applyRemoval_ok faults s.dir s.dir.path (parseMarks raw) plan out hplan
    rw [hrun]
    generalize runFs faults (applyRemoval s.dir.path plan) s.dir = r at hfiles hchanged
    obtain ⟨result, dir'⟩ := r
    cases result with
    | error e =>
      exact
        { phases := ⟨request, changedFiles s.dir dir', [], by rw [hevents]; rfl, hrequest,
            fun e he => of_mem_changedFiles he, Or.inl rfl⟩
          removed := fun _ => ⟨hdry, hhalted, raw, plan, hremove, hplan, hfiles⟩
          reloads := fun h => by cases h }
    | ok outcome =>
      obtain ⟨-, hout, hevs⟩ := hchanged outcome rfl
      refine
        { phases := ⟨request, changedFiles s.dir dir', reloadAfter bus outcome, by rw [hevents], hrequest,
            fun e he => of_mem_changedFiles he, ?_⟩
          removed := fun _ => ⟨hdry, hhalted, raw, plan, hremove, hplan, hfiles⟩
          reloads := fun hok q hq => ?_ }
      · unfold reloadAfter
        split
        · exact Or.inr rfl
        · exact Or.inl rfl
      · -- something was removed, and the reload that followed has worked
        dsimp only at hok hq ⊢
        have hsome : outcome.changed = true := by
          rw [hout]
          by_contra hnone
          have hnil : plan.removes = [] := by simpa using hnone
          rw [hevs, hnil] at hq
          unfold reloadAfter at hq
          rcases List.mem_append.1 hq with hq | hq
          · split at hq
            · cases List.mem_singleton.1 hq
            · cases hq
          · have hrequested : StopEvent.changed q ∈ s.events := by simpa using hq
            exact absurd (hevents ▸ hrequested) changed_not_mem_request
        rw [if_pos hsome] at hok
        have hreload : bus.reload.isOk = true := by rw [hok]; rfl
        unfold reloadAfter
        rw [hsome, hreload]
        exact List.mem_cons_self

/-- **The order of a stop.** Whatever the bus answers and whatever fails: systemd is asked to stop the
compositor, at most once, then files are removed, then the manager is reloaded, at most once. Files are removed
only when that was asked for and this is no dry run, when no compositor was listed or its stop job was seen to be
gone, and only those that the plan is to remove. A command that succeeds after it has removed something has reloaded
the manager. -/
theorem stop_order (bus : StopBus) (opts : StopOpts) (faults : FsFaults) (dir : Rung) :
    StopOrder bus opts dir (runStop bus opts faults ⟨dir, [], [], []⟩) := by
  cases hdry : opts.dryRun with
  | true =>
    obtain ⟨hdir, hevents⟩ := @runStop_dry bus opts faults ⟨dir, [], [], []⟩ hdry
    exact @stopOrder_idle bus opts dir _ none hdir nofun hevents
  | false =>
    obtain ⟨request, hrequest, hstate, hhalted⟩ := @stopWm_real bus ⟨dir, [], [], []⟩
    rw [runStop_eq, hdry]
    generalize stopWm bus false ⟨dir, [], [], []⟩ = w at hstate hhalted
    obtain ⟨result, t⟩ := w
    obtain rfl : t = _ := hstate
    cases result with
    | error e => exact stopOrder_idle rfl hrequest (List.append_nil _)
    | ok stopped =>
      cases hremove : opts.remove with
      | none => exact stopOrder_idle rfl hrequest (List.append_nil _)
      | some raw =>
        exact @stopOrder_removeUnits bus opts faults ⟨dir, (request.map StopEvent.stopRequested).toList ++ [],
          [] ++ notRunning stopped, []⟩ raw request hdry (hhalted stopped rfl).1 hremove hrequest (List.append_nil _)

/-! ## What a dry run tells -/

def reloadLine : Str := "  (would reload the systemd user manager)".toList

theorem ne_of_third {l text : Str} {c : Char} (hl : l[2]? = some c) (h : text[2]? ≠ some c) : l ≠ text := by
  rintro rfl
  exact h hl

theorem removalLine_injective : Function.Injective removalLine := fun p q h => by simpa [removalLine] using h

theorem third_skipped (rest : Str) : ("  ! ".toList ++ rest)[2]? = some '!' := rfl

/-- The lines that name what is removed. -/
theorem mem_removalReport {path q : Str} {plan : RemovalPlan} :
    removalLine q ∈ removalReport path plan ↔ q ∈ plan.removes.map PlannedRemove.relname := by
  have hthird : (removalLine q)[2]? = some '-' := rfl
  have htitle : removalLine q ≠ "Dry run: removal in ".toList ++ path :=
    ne_of_third hthird (by simp)
  have hnothing : removalLine q ≠ "  (nothing to remove)".toList := ne_of_third hthird (by decide)
  have hreload : removalLine q ≠ reloadLine := ne_of_third hthird (by decide)
  unfold removalReport
  rw [List.mem_cons, or_iff_right htitle]
  split
  · rename_i hempty
    have hnil : plan.removes = [] := by simpa using (Bool.and_eq_true_iff.1 hempty).1
    rw [hnil]
    simpa using hnothing
  · have hlast : removalLine q ∉ (if plan.removes.isEmpty = true then [] else [reloadLine]) := by
      split
      · simp
      · simpa using hreload
    have hskipped : removalLine q ∉ plan.skipped.map fun s => "  ! ".toList ++ s.relname ++
        " (left in place — ".toList ++ s.reason ++ ")".toList := by
      intro hmem
      obtain ⟨s, -, he⟩ := List.mem_map.1 hmem
      refine ne_of_third hthird ?_ he.symm
      simp only [List.append_assoc, third_skipped]
      decide
    rw [List.mem_append, List.mem_append]
    refine (or_iff_left hlast).trans ((or_iff_left hskipped).trans ?_)
    simp only [List.mem_map, removalLine_injective.eq_iff]

/-- The line that announces a reload. -/
theorem reloadLine_mem_removalReport {path : Str} {plan : RemovalPlan} :
    reloadLine ∈ removalReport path plan ↔ plan.removes ≠ [] := by
  have hthird : reloadLine[2]? = some '(' := by decide
  have htitle : reloadLine ≠ "Dry run: removal in ".toList ++ path :=
    ne_of_third hthird (by simp)
  unfold removalReport
  rw [List.mem_cons, or_iff_right htitle]
  split
  · rename_i hempty
    have hnil : plan.removes = [] := by simpa using (Bool.and_eq_true_iff.1 hempty).1
    refine iff_of_false ?_ (not_not.2 hnil)
    rw [List.mem_singleton]
    decide
  · have hremoves : reloadLine ∉ plan.removes.map fun r => removalLine r.relname := by
      intro hmem
      obtain ⟨r, -, he⟩ := List.mem_map.1 hmem
      exact ne_of_third hthird (by simp [removalLine]) he.symm
    have hskipped : reloadLine ∉ plan.skipped.map fun s => "  ! ".toList ++ s.relname ++
        " (left in place — ".toList ++ s.reason ++ ")".toList := by
      intro hmem
      obtain ⟨s, -, he⟩ := List.mem_map.1 hmem
      refine ne_of_third hthird ?_ he.symm
      simp only [List.append_assoc, third_skipped]
      decide
    rw [List.mem_append, List.mem_append]
    refine (or_iff_right (not_or.2 ⟨hremoves, hskipped⟩)).trans ?_
    cases hempty : plan.removes with
    | nil => simp
    | cons r rest => exact iff_of_true List.mem_cons_self (by simp)

/-- What is printed before the removal. -/
def preface (bus : StopBus) : List Str :=
  (bus.unit.map stopLine).toList ++ notRunning (!(bus.units.toOption.getD []).isEmpty)

theorem third_preface {text : Str} (h : text ∈ preface bus) : text[2]? = some 'u' ∨ text[2]? = some 'm' := by
  rcases List.mem_append.1 h with hstop | hidle
  · obtain ⟨unit, -, rfl⟩ := Option.map_eq_some_iff.1 (Option.mem_toList.1 hstop)
    exact Or.inl rfl
  · unfold notRunning at hidle
    split at hidle
    · cases hidle
    · obtain rfl := List.mem_singleton.1 hidle
      exact Or.inr (by decide)

theorem not_mem_preface {text : Str} {c : Char} (hline : text[2]? = some c) (hu : c ≠ 'u') (hm : c ≠ 'm') :
    text ∉ preface bus := fun h => by
  rcases third_preface h with h | h
  · exact hu (Option.some.inj (hline.symm.trans h))
  · exact hm (Option.some.inj (hline.symm.trans h))

/-- A dry run, once the compositors could be listed. -/
theorem runStop_dry_eq {units : List Str} (hdry : opts.dryRun = true) (hunits : bus.units = .ok units) :
    runStop bus opts faults ⟨dir, [], [], []⟩ = match opts.remove with
      | none => (.ok ⟨⟩, ⟨dir, [], preface bus, []⟩)
      | some raw => match planRemoveAll dir (parseMarks raw) with
        | .ok plan => (.ok ⟨⟩, ⟨dir, [], preface bus ++ removalReport dir.path plan, []⟩)
        | .error e => (.error e, ⟨dir, [], preface bus, []⟩) := by
  rw [runStop_eq, hdry, stopWm_dry]
  unfold preface
  rw [hunits]
  cases opts.remove with
  | none => rfl
  | some raw =>
    simp only [Except.map]
    rw [removeUnits_dry]
    rfl

/-- The command, once the compositor has stopped. -/
theorem runStop_halted_eq {units : List Str} (hreal : opts.dryRun = false) (hunits : bus.units = .ok units)
    (hhalted : Halted bus) : ∃ stdout, (∀ line ∈ stdout, line ∈ preface bus) ∧
      let t : Stopping := ⟨dir, (bus.unit.map StopEvent.stopRequested).toList, stdout, []⟩
      runStop bus opts faults ⟨dir, [], [], []⟩ = match opts.remove with
        | none => (.ok ⟨⟩, t)
        | some raw => removeUnits bus false faults raw t := by
  refine ⟨notRunning (!(bus.units.toOption.getD []).isEmpty), fun line h => List.mem_append_right _ h, ?_⟩
  rw [runStop_eq, hreal, stopWm_halted hhalted, hunits]
  cases opts.remove <;> simp [Except.map, Except.toOption]

theorem stopLine_mem {unit : Str} {report : List Str} (hreport : stopLine unit ∉ report) :
    stopLine unit ∈ preface bus ++ report ↔ bus.unit = some unit := by
  have hinj : Function.Injective stopLine := fun a b h => List.append_cancel_left (List.append_cancel_right h)
  have hidle : stopLine unit ∉ notRunning (!(bus.units.toOption.getD []).isEmpty) := by
    unfold notRunning
    split
    · simp
    · rw [List.mem_singleton]
      exact ne_of_third (c := 'u') rfl (by decide)
  rw [preface, List.mem_append, List.mem_append, or_iff_left hreport, or_iff_left hidle, Option.mem_toList,
    Option.map_eq_some_iff]
  simp only [hinj.eq_iff, exists_eq_right]

theorem stopLine_not_mem_removalReport {unit path : Str} {plan : RemovalPlan} :
    stopLine unit ∉ removalReport path plan := by
  have hthird : (stopLine unit)[2]? = some 'u' := rfl
  have hlines : ∀ text ∈ removalReport path plan, text[2]? ≠ some 'u' := by
    unfold removalReport
    rw [List.forall_mem_cons]
    refine ⟨by simp, ?_⟩
    split
    · rw [List.forall_mem_singleton]
      decide
    · rw [List.forall_mem_append, List.forall_mem_append, List.forall_mem_map, List.forall_mem_map]
      refine ⟨⟨fun r _ => by simp [removalLine], fun c _ => ?_⟩, ?_⟩
      · simp only [List.append_assoc, third_skipped]
        decide
      · split
        · simp
        · rw [List.forall_mem_singleton]
          decide
  exact fun h => hlines _ h hthird

/-- What a dry run has told about the real one. -/
structure Foretold (dir : Rung) (dry real : Except Error PUnit × Stopping) : Prop where
  result : real.1 = dry.1
  requests : ∀ unit, .stopRequested unit ∈ real.2.events ↔ stopLine unit ∈ dry.2.stdout
  lines : ∀ q, removalLine q ∈ real.2.stdout ↔ removalLine q ∈ dry.2.stdout
  removed : ∀ q, q ≠ manifestName → removalLine q ∈ dry.2.stdout → real.2.dir.files q = none
  kept : ∀ q, q ≠ manifestName → removalLine q ∉ dry.2.stdout → real.2.dir.files q = dir.files q
  reloads : .reloaded ∈ real.2.events ↔ reloadLine ∈ dry.2.stdout

/-- Nothing is removed, and that was foretold. -/
theorem foretold_stopped {result : Except Error PUnit} {stdout : List Str}
    (hstdout : ∀ line ∈ stdout, line ∈ preface bus) : Foretold dir (result, ⟨dir, [], preface bus, []⟩)
      (result, ⟨dir, (bus.unit.map StopEvent.stopRequested).toList, stdout, []⟩) := by
  have hnoRemoval : ∀ q, removalLine q ∉ preface bus := fun q => not_mem_preface (c := '-') rfl (by decide) (by decide)
  have hnoReload : reloadLine ∉ preface bus := not_mem_preface (c := '(') (by decide) (by decide) (by decide)
  refine ⟨rfl, fun unit => ?_, fun q => ?_, fun q _ hq => absurd hq (hnoRemoval q), fun q _ _ => rfl, ?_⟩
  · dsimp only
    rw [← List.append_nil (preface bus), stopLine_mem List.not_mem_nil]
    simp [eq_comm]
  · exact iff_of_false (fun hq => hnoRemoval q (hstdout _ hq)) (hnoRemoval q)
  · exact iff_of_false (by simp) hnoReload

/-- **What a dry run tells.** It changes nothing, whatever the bus answers. Once the compositor has stopped, and without
failures, the command asks for the stop that its dry run names, removes the files that it names and no others, says so
in the same lines, and reloads the manager if the dry run says that it would; it fails where the dry run fails. -/
theorem stop_dryRun_predicts {bus : StopBus} {opts : StopOpts} (faults : FsFaults) (dir : Rung)
    (hdry : opts.dryRun = true) :
    let dry := runStop bus opts faults ⟨dir, [], [], []⟩
    dry.2.dir = dir ∧ dry.2.events = [] ∧
      (Halted bus → bus.reload = .ok () →
        Foretold dir dry (runStop bus { opts with dryRun := false } noFaults ⟨dir, [], [], []⟩)) := by
  intro dry
  obtain ⟨hdir, hevents⟩ := @runStop_dry bus opts faults ⟨dir, [], [], []⟩ hdry
  refine ⟨hdir, hevents, fun hhalted hreload => ?_⟩
  show Foretold dir (runStop bus opts faults ⟨dir, [], [], []⟩) _
  obtain ⟨units, hunits⟩ : ∃ units, bus.units = .ok units := by
    cases hhalted with
    | idle hunits => exact ⟨_, hunits⟩
    | stopped hunits => exact ⟨_, hunits⟩
  obtain ⟨stdout, hstdout, hreal⟩ := @runStop_halted_eq bus { opts with dryRun := false } noFaults dir units rfl
    hunits hhalted
  rw [hreal, runStop_dry_eq hdry hunits]
  cases opts.remove with
  | none => exact foretold_stopped hstdout
  | some raw =>
    dsimp only
    cases hplan : planRemoveAll dir (parseMarks raw) with
    | error e =>
      rw [removeUnits_unplanned hplan]
      exact foretold_stopped hstdout
    | ok plan =>
      obtain ⟨warnings, hrun⟩ := @removeUnits_real bus ⟨dir, (bus.unit.map StopEvent.stopRequested).toList, stdout, []⟩
        noFaults raw plan hplan
      obtain ⟨⟨out, hout⟩, hgone⟩ := @applyRemoval_noFaults dir dir.path _ plan hplan
      obtain ⟨hremoved, hchanged, hevents⟩ := applyRemoval_ok hplan hout
      have hfiles := fun q hq => @files_applyRemoval noFaults dir dir.path _ plan hplan q hq
      rw [hrun]
      dsimp only
      rw [hout]
      have hnoRemoval : ∀ q, removalLine q ∉ preface bus := fun q =>
        not_mem_preface (c := '-') rfl (by decide) (by decide)
      have hnoReload : reloadLine ∉ preface bus := not_mem_preface (c := '(') (by decide) (by decide) (by decide)
      have htold : ∀ q, removalLine q ∈ preface bus ++ removalReport dir.path plan ↔
          q ∈ plan.removes.map PlannedRemove.relname := fun q => by
        rw [List.mem_append, or_iff_right (hnoRemoval q), mem_removalReport]
      refine ⟨?_, fun unit => ?_, fun q => ?_, fun q _ hq => hgone q ((htold q).1 hq),
        fun q hm hq => ?_, ?_⟩
      · dsimp only
        rw [hreload, ite_self]
      · dsimp only
        rw [stopLine_mem stopLine_not_mem_removalReport, hevents]
        unfold reloadAfter
        split <;> simp [eq_comm]
      · dsimp only
        rw [htold, List.mem_append, or_iff_right fun hq => hnoRemoval q (hstdout _ hq), hremoved]
        simp only [List.mem_map, removalLine_injective.eq_iff]
        simp
      · by_contra hne
        exact hq ((htold q).2 (hfiles q hm hne).1)
      · dsimp only
        rw [List.mem_append (a := reloadLine), or_iff_right hnoReload, reloadLine_mem_removalReport, hevents]
        unfold reloadAfter
        rw [hchanged, hreload]
        cases hremoves : plan.removes with
        | nil => simp
        | cons r rest => exact iff_of_true List.mem_cons_self (by simp)

end

/-- Sway stops in less than a second. -/
def swayStops : StopBus where
  units := .ok ["wayland-wm@sway.service".toList]
  stopUnit _ := .ok "/job/7".toList
  jobs := ⟨fun i => (.ok (if i < 3 then ["/job/7".toList] else []), i * milliseconds 100), fun _ => le_rfl⟩
  reload := .ok ()

theorem halted_swayStops : Halted swayStops := by
  refine .stopped (k := 3) rfl rfl ⟨rfl, by simp⟩ fun i hi => ⟨?_, _, rfl, ?_⟩
  · simp only [swayStops, milliseconds]
    omega
  · simp [hi]

/-- After a generation, all of it is to be removed. -/
theorem stop_dryRun_predicts_sway : Foretold ((generating usrBin swayInput).run emptyRung)
    (runStop swayStops ⟨true, some []⟩ noFaults ⟨(generating usrBin swayInput).run emptyRung, [], [], []⟩)
    (runStop swayStops ⟨false, some []⟩ noFaults ⟨(generating usrBin swayInput).run emptyRung, [], [], []⟩) :=
  (@stop_dryRun_predicts swayStops ⟨true, some []⟩ noFaults _ rfl).2.2 halted_swayStops rfl

end Wsmr
