import Wsmr.Units.Pristine

/-!
# Generation and reload in `start` (`src/session/start.rs`)

`run_with` reloads the manager when its own generation has changed something. A `Machine` is the unit
directory, and what the manager has seen of it: the changes of unit files, the reloads, and the starts,
newest first. A reload is owed once a call has changed a unit file, until one works (`owes`).
-/

namespace Wsmr

open Text Effects UndoLog

structure StartOpts where
  dryRun : Bool
  onlyGenerate : Bool
  tweaks : Bool
  binPath : Str

/-- The answers of the session bus. -/
structure SessionBus where
  isActive : Except Error Bool
  reload : Except Error Unit

inductive UnitEvent where
  | changed (relname : Str)
  | reloaded
  | started
  deriving DecidableEq

structure Machine where
  dir : Rung
  history : List UnitEvent

inductive StartOutcome where
  | dryRun
  | generated
  /-- On to the bindpid unit. -/
  | started
  deriving DecidableEq

def buildDropins (comp : CompGlobals) (binPath : Str) : DropinInput where
  id := comp.id
  idUnitString := comp.idUnitString
  binPath := binPath
  binName := comp.binName
  name := comp.name
  description := comp.description
  desktopNames := comp.desktopNames
  cliDesktopNames := comp.cliDesktopNames
  cliDesktopNamesExclusive := comp.cliDesktopNamesExclusive
  cmdline := comp.cmdline
  cliArgs := comp.cmdline.drop 1

def StartOpts.ctx (opts : StartOpts) : RenderCtx := ⟨"wsmr".toList, opts.binPath, "waitpid".toList⟩

def refuseIfActive (alreadyActive : Bool) : Except Error Unit :=
  if alreadyActive then .error (.resolve "a compositor or graphical session is already active".toList) else .ok ()

/-- The changes of unit files since `dir`; the manifest is none. -/
def gained (dir dir' : Rung) : List UnitEvent :=
  ((dir'.log.take (dir'.log.length - dir.log.length)).filter fun c => c.relname ≠ manifestName).map fun c =>
    .changed c.relname

/-- A machine with a call on it. -/
abbrev StartIo (α : Type) := ExceptT Error (StateM Machine) α

/-- Work on the directory. -/
def onRung {α : Type} (faults : FsFaults) (p : FsIo α) : StartIo α := fun s =>
  let r := runFs faults p s.dir
  (r.1, ⟨r.2, gained s.dir r.2 ++ s.history⟩)

def SessionBus.reloadUnits (bus : SessionBus) : StartIo Unit := fun s =>
  (bus.reload, if bus.reload.isOk then { s with history := .reloaded :: s.history } else s)

def startBindpid : StartIo Unit := fun s => (.ok (), { s with history := .started :: s.history })

/-- Steps (4) and (5) of `run_with`, as far as the bindpid unit. -/
def applyAndStart (opts : StartOpts) (bus : SessionBus) (faults : FsFaults) (path : Str) (plan : GenerationPlan) :
    StartIo StartOutcome := do
  let outcome ← onRung faults (applyGenerate path plan)
  if outcome.changed then bus.reloadUnits
  if opts.onlyGenerate then return .generated
  startBindpid
  return .started

def runWith (comp : CompGlobals) (opts : StartOpts) (bus : SessionBus) (faults : FsFaults) : StartIo StartOutcome := do
  refuseIfActive (← bus.isActive)
  let dir := (← get).dir
  let plan ← planGenerate dir opts.ctx (buildDropins comp opts.binPath) opts.tweaks true
  if !plan.conflicts.isEmpty then throw (conflictError dir.path plan.conflicts)
  if opts.dryRun then return .dryRun
  applyAndStart opts bus faults dir.path plan

/-! ## Calls -/

structure StartCall where
  comp : CompGlobals
  opts : StartOpts
  bus : SessionBus
  faults : FsFaults

def StartCall.run (c : StartCall) (s : Machine) : Machine := (runWith c.comp c.opts c.bus c.faults s).2

def runCalls (calls : List StartCall) (s : Machine) : Machine := calls.foldl (fun s c => c.run s) s

/-- The plan that is carried out: the call is not refused, has no conflict and is no dry run. -/
def StartCall.plan (c : StartCall) (dir : Rung) : Option GenerationPlan :=
  match c.bus.isActive, planGenerate dir c.opts.ctx (buildDropins c.comp c.opts.binPath) c.opts.tweaks true with
  | .ok false, .ok plan => if plan.conflicts.isEmpty && !c.opts.dryRun then some plan else none
  | _, _ => none

def StartCall.batch (c : StartCall) (dir : Rung) : Option (List (Str × Option Str)) :=
  (c.plan dir).map fun plan => changesOf plan.writes plan.removes

/-- There is nothing to change. -/
def StartCall.idle (c : StartCall) (dir : Rung) : Bool := (c.batch dir).any List.isEmpty

/-- The first planned change works. -/
def StartCall.changes (c : StartCall) (dir : Rung) : Bool :=
  (c.batch dir).any fun cs => cs.head?.any fun change => !c.faults.change change.1

/-- There is something to change, and everything works. -/
def StartCall.reloads (c : StartCall) (dir : Rung) : Bool :=
  (c.batch dir).any fun cs => !cs.isEmpty && cs.all (fun change => !c.faults.change change.1) &&
    !c.faults.change manifestName && c.bus.reload.isOk

/-- Whether a reload is owed after the call. -/
def StartCall.owes (c : StartCall) (dir : Rung) (owed : Bool) : Bool := !c.reloads dir && (owed || c.changes dir)

/-! ## Histories -/

/-- Every change has been followed by a reload. -/
def Fresh (history : List UnitEvent) : Prop :=
  ∀ newer q older, history = newer ++ .changed q :: older → .reloaded ∈ newer

/-- At every start, the last reload has come after the last change. -/
def StartsFresh (history : List UnitEvent) : Prop := ∀ newer older, history = newer ++ .started :: older → Fresh older

theorem fresh_cons {e : UnitEvent} {h : List UnitEvent} (he : ∀ q, e ≠ .changed q) :
    Fresh (e :: h) ↔ e = .reloaded ∨ Fresh h := by
  constructor
  · intro hf
    refine or_iff_not_imp_left.2 fun hne newer q older heq => ?_
    have hmem := hf (e :: newer) q older (by rw [heq]; rfl)
    exact (List.mem_cons.1 hmem).resolve_left (Ne.symm hne)
  · intro hf newer q older heq
    cases newer with
    | nil => exact absurd (List.cons.inj heq).1 (he q)
    | cons e' newer =>
      obtain ⟨rfl, hrest⟩ := List.cons.inj heq
      rcases hf with rfl | hf
      · exact List.mem_cons_self
      · exact List.mem_cons_of_mem _ (hf newer q older hrest)

theorem fresh_reloaded (h : List UnitEvent) : Fresh (.reloaded :: h) := (fresh_cons (by simp)).2 (Or.inl rfl)

theorem fresh_started {h : List UnitEvent} : Fresh (.started :: h) ↔ Fresh h :=
  (fresh_cons (by simp)).trans (or_iff_right (by simp))

theorem not_fresh_changes {es h : List UnitEvent} (hes : ∀ e ∈ es, ∃ q, e = .changed q) (hne : es ≠ []) :
    ¬ Fresh (es ++ h) := by
  cases es with
  | nil => exact absurd rfl hne
  | cons e es =>
    obtain ⟨q, rfl⟩ := hes e List.mem_cons_self
    intro hf
    exact absurd (hf [] q (es ++ h) rfl) (by simp)

theorem startsFresh_cons {e : UnitEvent} {h : List UnitEvent} (he : e ≠ .started) :
    StartsFresh (e :: h) ↔ StartsFresh h := by
  constructor
  · intro hf newer older heq
    exact hf (e :: newer) older (by rw [heq]; rfl)
  · intro hf newer older heq
    cases newer with
    | nil => exact absurd (List.cons.inj heq).1 he
    | cons e' newer => exact hf newer older (List.cons.inj heq).2

theorem startsFresh_changes {es h : List UnitEvent} (hes : ∀ e ∈ es, ∃ q, e = .changed q) :
    StartsFresh (es ++ h) ↔ StartsFresh h := by
  induction es with
  | nil => rfl
  | cons e es ih =>
    rw [List.forall_mem_cons] at hes
    obtain ⟨q, hq⟩ := hes.1
    rw [List.cons_append, startsFresh_cons (by rw [hq]; simp), ih hes.2]

theorem startsFresh_started {h : List UnitEvent} : StartsFresh (.started :: h) ↔ Fresh h ∧ StartsFresh h := by
  constructor
  · intro hf
    refine ⟨hf [] h rfl, fun newer older heq => hf (.started :: newer) older (by rw [heq]; rfl)⟩
  · rintro ⟨hfresh, hf⟩ newer older heq
    cases newer with
    | nil =>
      obtain rfl := (List.cons.inj heq).2
      exact hfresh
    | cons e newer => exact hf newer older (List.cons.inj heq).2

/-! ## One call -/

section
variable {faults : FsFaults} {dir dir' : Rung}

theorem gained_append {l : List FsChange} (h : dir'.log = l ++ dir.log) :
    gained dir dir' = (l.filter fun c => c.relname ≠ manifestName).map fun c => .changed c.relname := by
  have htake : dir'.log.take (dir'.log.length - dir.log.length) = l := by
    rw [h, List.length_append, Nat.add_sub_cancel, List.take_left]
  rw [gained, htake]

theorem of_mem_gained {e : UnitEvent} (h : e ∈ gained dir dir') : ∃ q, e = .changed q := by
  obtain ⟨c, -, rfl⟩ := List.mem_map.1 h
  exact ⟨c.relname, rfl⟩

theorem gained_ne_nil {l : List FsChange} (h : dir'.log = l ++ dir.log) {c : FsChange} (hc : c ∈ l)
    (hm : c.relname ≠ manifestName) : gained dir dir' ≠ [] := by
  rw [gained_append h]
  exact List.ne_nil_of_mem (List.mem_map_of_mem (List.mem_filter.2 ⟨hc, by simpa using hm⟩))

/-- Changes that are taken back have been made. -/
theorem gained_taken_back {done back : List (Str × Option Str)} {change : Str × Option Str} (hc : change ∈ done)
    (hm : change.1 ≠ manifestName) : gained dir ((dir.putAll false done).putAll true back) ≠ [] := by
  refine gained_ne_nil (l := (back.map fun c => ⟨true, c.1, c.2⟩).reverse ++
    (done.map fun c => ⟨false, c.1, c.2⟩).reverse) ?_ (c := ⟨false, change.1, change.2⟩) ?_ hm
  · rw [Rung.log_putAll, Rung.log_putAll, List.append_assoc]
  · exact List.mem_append_right _ (List.mem_reverse.2 (List.mem_map.2 ⟨change, hc, rfl⟩))

variable {m : Manifest} {path : Str} {cs : List (Str × Option Str)}

variable (faults dir m path) in
/-- What a batch has changed when its first change works. -/
theorem gained_runBatch (hm : manifestName ∉ cs.map Prod.fst) :
    gained dir (runFs faults (runBatch path m cs []) dir).2 ≠ [] ↔
      (cs.head?.any fun change => !faults.change change.1) = true := by
  cases cs with
  | nil =>
    have hrun : runFs faults (runBatch path m [] []) dir = (.ok (Batch.start m).out, dir) := rfl
    have hnone : gained dir dir = [] := gained_append (l := []) rfl
    simp [hrun, hnone]
  | cons first rest =>
    have hfirst : first.1 ≠ manifestName := fun he => hm (he ▸ List.mem_cons_self)
    rw [List.head?_cons, Option.any_some, Bool.not_eq_true']
    by_cases hstop : ∃ c ∈ first :: rest, faults.change c.1 = true
    · obtain ⟨done, rest', c, heq, hdone, hc, hrun⟩ := runBatch_stopped dir path m [] hstop
      rw [hrun]
      cases done with
      | nil =>
        obtain rfl := (List.cons.inj heq).1
        have hnone : gained dir dir = [] := gained_append (l := []) rfl
        refine iff_of_false (fun h => h ?_) (by rw [hc]; simp)
        exact hnone
      | cons d done =>
        obtain rfl := (List.cons.inj heq).1
        refine iff_of_true ?_ (hdone _ List.mem_cons_self)
        exact gained_taken_back List.mem_cons_self hfirst
    · have hthrough : ∀ c ∈ first :: rest, faults.change c.1 = false := by simpa using hstop
      refine iff_of_true ?_ (hthrough first List.mem_cons_self)
      have hmem : (⟨false, first.1, first.2⟩ : FsChange) ∈
          ((first :: rest).map fun c => (⟨false, c.1, c.2⟩ : FsChange)).reverse :=
        List.mem_reverse.2 (List.mem_map.2 ⟨_, List.mem_cons_self, rfl⟩)
      rw [runBatch_through hthrough, List.isEmpty_cons, Bool.false_and, if_neg (by simp)]
      split
      · exact gained_ne_nil Rung.log_putAll hmem hfirst
      · exact gained_ne_nil (l := ⟨false, manifestName, some (m.after (first :: rest) []).render⟩ ::
          ((first :: rest).map fun c => ⟨false, c.1, c.2⟩).reverse) (congrArg (_ :: ·) Rung.log_putAll)
          (List.mem_cons_of_mem _ hmem) hfirst

variable (faults dir m path cs) in
/-- What a batch returns. -/
theorem runBatch_result : ((runFs faults (runBatch path m cs []) dir).1.isOk ↔
      (∀ c ∈ cs, faults.change c.1 = false) ∧ (cs = [] ∨ faults.change manifestName = false)) ∧
    ∀ out, (runFs faults (runBatch path m cs []) dir).1 = .ok out → out.changed = !cs.isEmpty := by
  by_cases hstop : ∃ c ∈ cs, faults.change c.1 = true
  · obtain ⟨_, _, _, _, _, _, hrun⟩ := runBatch_stopped dir path m [] hstop
    rw [hrun]
    refine ⟨iff_of_false (by simp [Except.isOk, Except.toBool]) fun h => ?_, fun out h => by cases h⟩
    obtain ⟨c, hc, hf⟩ := hstop
    exact absurd (h.1 c hc) (by simp [hf])
  · have hthrough : ∀ c ∈ cs, faults.change c.1 = false := by simpa using hstop
    have hout : ((Batch.start m).pushAll cs dir).out.changed = !cs.isEmpty := by
      rw [pushAll_changed]
      simp [Batch.start]
    rw [runBatch_through hthrough]
    cases cs with
    | nil => exact ⟨iff_of_true rfl ⟨hthrough, Or.inl rfl⟩, fun out h => by cases h; exact hout⟩
    | cons c cs =>
      cases hf : faults.change manifestName with
      | true => exact ⟨iff_of_false (by simp [Except.isOk, Except.toBool]) (by simp), fun out h => by cases h⟩
      | false => exact ⟨iff_of_true rfl ⟨hthrough, Or.inr rfl⟩, fun out h => by cases h; exact hout⟩

end

section
variable {c : StartCall} {s : Machine}

theorem plan_eq_some {dir : Rung} {plan : GenerationPlan} : c.plan dir = some plan ↔
    c.bus.isActive = .ok false ∧
      planGenerate dir c.opts.ctx (buildDropins c.comp c.opts.binPath) c.opts.tweaks true = .ok plan ∧
      plan.conflicts.isEmpty = true ∧ c.opts.dryRun = false := by
  unfold StartCall.plan
  constructor
  · intro h
    split at h
    · rename_i plan' hactive hplan
      split at h
      · rename_i hcond
        obtain rfl := Option.some.inj h
        simp only [Bool.and_eq_true, Bool.not_eq_true'] at hcond
        exact ⟨hactive, hplan, hcond⟩
      · cases h
    · cases h
  · rintro ⟨hactive, hplan, hconf, hdry⟩
    simp only [hactive, hplan, hconf, hdry]
    rfl

theorem runWith_active {e : Except Error Bool} (hactive : c.bus.isActive = e) (he : e ≠ .ok false) : c.run s = s := by
  unfold StartCall.run runWith
  rw [hactive]
  cases e with
  | error e => rfl
  | ok active =>
    cases active with
    | true => rfl
    | false => exact absurd rfl he

theorem runWith_planned (hactive : c.bus.isActive = .ok false) :
    c.run s = match planGenerate s.dir c.opts.ctx (buildDropins c.comp c.opts.binPath) c.opts.tweaks true with
      | .error _ => s
      | .ok plan =>
        if plan.conflicts.isEmpty && !c.opts.dryRun then
          (applyAndStart c.opts c.bus c.faults s.dir.path plan s).2
        else s := by
  unfold StartCall.run runWith
  rw [hactive]
  show (((planGenerate s.dir c.opts.ctx (buildDropins c.comp c.opts.binPath) c.opts.tweaks true : StartIo _) >>=
    fun plan => _) s).2 = _
  cases planGenerate s.dir c.opts.ctx (buildDropins c.comp c.opts.binPath) c.opts.tweaks true with
  | error e => rfl
  | ok plan =>
    show ((if (!plan.conflicts.isEmpty) = true then _ else _ : StartIo StartOutcome) s).2 =
      if (plan.conflicts.isEmpty && !c.opts.dryRun) = true then _ else s
    cases plan.conflicts.isEmpty with
    | false => rfl
    | true =>
      show ((if c.opts.dryRun = true then _ else _ : StartIo StartOutcome) s).2 = _
      cases c.opts.dryRun <;> rfl

/-- A call without a plan to carry out does nothing. -/
theorem run_of_no_plan (h : c.plan s.dir = none) : c.run s = s := by
  by_cases hactive : c.bus.isActive = .ok false
  · rw [runWith_planned hactive]
    split
    · rfl
    · rename_i plan hplan
      split
      · rename_i hcond
        simp only [Bool.and_eq_true, Bool.not_eq_true'] at hcond
        rw [plan_eq_some.2 ⟨hactive, hplan, hcond⟩] at h
        cases h
      · rfl
  · exact runWith_active rfl hactive

def StartCall.start (c : StartCall) : List UnitEvent := if c.opts.onlyGenerate then [] else [.started]

/-- The marks a call leaves in the history, after its changes. -/
def StartCall.marks (c : StartCall) : Except Error GenOutcome → List UnitEvent
  | .error _ => []
  | .ok outcome => if outcome.changed then if c.bus.reload.isOk then c.start ++ [.reloaded] else [] else c.start

theorem run_of_plan {plan : GenerationPlan} (h : c.plan s.dir = some plan) :
    c.run s = ⟨(runFs c.faults (applyGenerate s.dir.path plan) s.dir).2,
      c.marks (runFs c.faults (applyGenerate s.dir.path plan) s.dir).1 ++
        (gained s.dir (runFs c.faults (applyGenerate s.dir.path plan) s.dir).2 ++ s.history)⟩ := by
  obtain ⟨hactive, hplan, hconf, hdry⟩ := plan_eq_some.1 h
  rw [runWith_planned hactive, hplan]
  simp only [hconf, hdry, Bool.not_false, Bool.and_self, if_true]
  unfold applyAndStart StartCall.marks StartCall.start
  show ((onRung c.faults (applyGenerate s.dir.path plan) >>= fun outcome => _) s).2 = _
  generalize hr : runFs c.faults (applyGenerate s.dir.path plan) s.dir = r
  have hrung : onRung c.faults (applyGenerate s.dir.path plan) s = (r.1, ⟨r.2, gained s.dir r.2 ++ s.history⟩) := by
    rw [← hr]
    rfl
  generalize onRung c.faults (applyGenerate s.dir.path plan) = work at hrung ⊢
  show ((ExceptT.bindCont _ (work s).1 : StateM Machine _) (work s).2).2 = _
  rw [hrung]
  obtain ⟨result, dir'⟩ := r
  cases result with
  | error e => rfl
  | ok outcome =>
    show ((if outcome.changed = true then _ else _ : StartIo StartOutcome) _).2 = _
    dsimp only
    cases outcome.changed with
    | false => cases c.opts.onlyGenerate <;> rfl
    | true =>
      obtain ⟨comp, opts, ⟨isActive, reload⟩, faults⟩ := c
      cases reload with
      | error e => rfl
      | ok _ => cases opts.onlyGenerate <;> rfl

/-- What a call with a plan adds to the history. -/
theorem history_of_plan {plan : GenerationPlan} (h : c.plan s.dir = some plan) :
    ∃ es : List UnitEvent, (∀ e ∈ es, ∃ q, e = .changed q) ∧ (es ≠ [] ↔ c.changes s.dir = true) ∧
      (c.idle s.dir = true → c.reloads s.dir = false ∧ es = []) ∧
      (c.run s).history = (if c.idle s.dir then c.start else if c.reloads s.dir then c.start ++ [.reloaded] else []) ++
        (es ++ s.history) := by
  obtain ⟨-, hplan, hconf, -⟩ := plan_eq_some.1 h
  have hbatch : c.batch s.dir = some (changesOf plan.writes plan.removes) := by rw [StartCall.batch, h]; rfl
  have hname : manifestName ∉ (changesOf plan.writes plan.removes).map Prod.fst := fun hm => by
    obtain ⟨change, hc, he⟩ := List.mem_map.1 hm
    rw [(planGenerate_ok.1 hplan).2.2] at hc
    obtain ⟨t, ht, hchange⟩ := mem_changesOf.1 hc
    refine manifestName_not_mem_targets c.opts.ctx (buildDropins c.comp c.opts.binPath) c.opts.tweaks true ?_
    rw [← he, (of_change hchange).1]
    exact List.mem_map_of_mem ht
  have happly : applyGenerate s.dir.path plan = runBatch s.dir.path plan.manifest
      (changesOf plan.writes plan.removes) [] := by rw [applyGenerate_eq, if_pos hconf]
  have hrun := run_of_plan h
  rw [happly] at hrun
  unfold StartCall.changes StartCall.idle StartCall.reloads
  rw [hbatch]
  simp only [Option.any_some]
  generalize changesOf plan.writes plan.removes = cs at hname hrun ⊢
  obtain ⟨hok, hchanged⟩ := runBatch_result c.faults s.dir plan.manifest s.dir.path cs
  have hgained := gained_runBatch c.faults s.dir plan.manifest s.dir.path hname
  generalize runFs c.faults (runBatch s.dir.path plan.manifest cs []) s.dir = r at hrun hok hchanged hgained
  refine ⟨gained s.dir r.2, fun e he => of_mem_gained he, hgained, fun hidle => ?_, ?_⟩
  · obtain rfl := List.isEmpty_iff.1 hidle
    refine ⟨rfl, ?_⟩
    by_contra hne
    exact absurd (hgained.1 hne) (by simp)
  · rw [hrun]
    refine congrArg (· ++ _) ?_
    cases hr : r.1 with
    | error e =>
      rw [hr] at hok
      have hno := mt hok.2 (by simp [Except.isOk, Except.toBool])
      have hne : cs ≠ [] := fun hnil => hno ⟨by simp [hnil], Or.inl hnil⟩
      rw [if_neg (by simpa using hne), if_neg]
      · rfl
      · simp only [Bool.and_eq_true, List.all_eq_true, Bool.not_eq_true']
        exact fun hall => hno ⟨hall.1.1.2, Or.inr hall.1.2⟩
    | ok outcome =>
      rw [hr] at hok
      obtain ⟨hall, hsave⟩ := hok.1 rfl
      have hall' : (cs.all fun change => !c.faults.change change.1) = true := by simpa using hall
      simp only [StartCall.marks, hchanged outcome hr]
      cases cs with
      | nil => rfl
      | cons change cs =>
        have hsave' := hsave.resolve_left (by simp)
        simp only [List.isEmpty_cons, hall', hsave', Bool.not_false, Bool.and_self, Bool.true_and, if_true,
          Bool.false_eq_true, if_false]

theorem fresh_start {h : List UnitEvent} : Fresh (c.start ++ h) ↔ Fresh h := by
  unfold StartCall.start
  split
  · rfl
  · exact fresh_started

theorem startsFresh_start {h : List UnitEvent} :
    StartsFresh (c.start ++ h) ↔ StartsFresh h ∧ (c.opts.onlyGenerate = false → Fresh h) := by
  unfold StartCall.start
  cases c.opts.onlyGenerate with
  | true => simp
  | false =>
    rw [and_comm]
    simpa using startsFresh_started

/-- **One call**: its start is fresh unless it has nothing to change and a reload is owed. -/
theorem start_call {owed : Bool} (howed : owed = false ↔ Fresh s.history) :
    (StartsFresh (c.run s).history ↔
      StartsFresh s.history ∧ (c.idle s.dir = true → c.opts.onlyGenerate = false → owed = false)) ∧
    (c.owes s.dir owed = false ↔ Fresh (c.run s).history) := by
  unfold StartCall.owes
  cases hplan : c.plan s.dir with
  | none =>
    have hbatch : c.batch s.dir = none := by rw [StartCall.batch, hplan]; rfl
    simp only [run_of_no_plan hplan, StartCall.idle, StartCall.changes, StartCall.reloads, hbatch, Option.any_none]
    simpa using howed
  | some plan =>
    obtain ⟨es, hes, hchanges, hidle, hhistory⟩ := history_of_plan hplan
    rw [hhistory, howed]
    cases hi : c.idle s.dir with
    | true =>
      obtain ⟨hreloads, rfl⟩ := hidle hi
      have hno : c.changes s.dir = false := by
        rw [← Bool.not_eq_true, ← hchanges]
        simp
      simp only [if_true, List.nil_append, startsFresh_start, fresh_start, hreloads, hno, Bool.or_false, Bool.not_false,
        Bool.true_and, howed, forall_const, and_self]
    | false =>
      cases hr : c.reloads s.dir with
      | true =>
        have hfresh := fresh_reloaded (es ++ s.history)
        have hstarts : StartsFresh (.reloaded :: (es ++ s.history)) ↔ StartsFresh s.history :=
          (startsFresh_cons (by simp)).trans (startsFresh_changes hes)
        simp only [if_true, Bool.false_eq_true, if_false, List.append_assoc, List.singleton_append, startsFresh_start,
          fresh_start, hfresh, hstarts, Bool.not_true, Bool.false_and, false_implies, implies_true, and_true]
      | false =>
        simp only [Bool.false_eq_true, if_false, List.nil_append, startsFresh_changes hes, false_implies, and_true,
          Bool.not_false, Bool.true_and, Bool.or_eq_false_iff, howed, true_and]
        cases hc : c.changes s.dir with
        | true => exact iff_of_false (by simp) (not_fresh_changes hes (hchanges.2 hc))
        | false =>
          have hnil : es = [] := by
            by_contra hne
            rw [hchanges.1 hne] at hc
            cases hc
          rw [hnil]
          simp

end

/-! ## Runs -/

/-- No call that is to start the session finds nothing to change while a reload is owed. -/
def NoneOwed : List StartCall → Machine → Bool → Prop
  | [], _, _ => True
  | c :: calls, s, owed =>
    (c.idle s.dir = true → c.opts.onlyGenerate = false → owed = false) ∧
      NoneOwed calls (c.run s) (c.owes s.dir owed)

theorem startsFresh_runCalls {calls : List StartCall} {s : Machine} {owed : Bool}
    (howed : owed = false ↔ Fresh s.history) :
    StartsFresh (runCalls calls s).history ↔ StartsFresh s.history ∧ NoneOwed calls s owed := by
  induction calls generalizing s owed with
  | nil => exact (and_iff_left trivial).symm
  | cons c calls ih =>
    obtain ⟨hstarts, hnext⟩ := start_call (c := c) howed
    have hrest := ih hnext
    rw [hstarts, and_assoc] at hrest
    exact hrest

/-- **No session on stale units**: exactly in the runs in which no call that goes on to start the session finds
nothing to change while a reload is owed. -/
theorem startsFresh_iff (calls : List StartCall) (dir : Rung) :
    StartsFresh (runCalls calls ⟨dir, []⟩).history ↔ NoneOwed calls ⟨dir, []⟩ false := by
  have hfresh : Fresh [] := fun newer q older h => absurd h (by simp)
  have hstarts : StartsFresh [] := fun newer older h => absurd h (by simp)
  rw [startsFresh_runCalls (iff_of_true rfl hfresh), and_iff_right hstarts]

/-! ## A reload that fails -/

def swayComp : CompGlobals where
  cmdline := ["/usr/bin/sway".toList]
  id := "sway".toList
  idUnitString := "sway".toList
  binName := "sway".toList
  binId := "sway".toList
  desktopNames := ["sway".toList]
  name := none
  description := none
  cliDesktopNames := []
  cliDesktopNamesExclusive := false

/-- `start /usr/bin/sway` with no session active, and nothing failing but the reload. -/
def startSway (reload : Except Error Unit) : StartCall :=
  ⟨swayComp, ⟨false, false, false, "/usr/bin/wsmr".toList⟩, ⟨.ok false, reload⟩, noFaults⟩

theorem plan_startSway {dir : Rung} (reload : Except Error Unit) {plan : GenerationPlan}
    (h : planGenerate dir usrBin swayInput.toDropinInput false true = .ok plan) (hconf : plan.conflicts = []) :
    (startSway reload).plan dir = some plan :=
  plan_eq_some.2 ⟨rfl, h, by rw [hconf]; rfl, rfl⟩

theorem batch_startSway {dir : Rung} {reload : Except Error Unit} {plan : GenerationPlan}
    (h : (startSway reload).plan dir = some plan) :
    (startSway reload).batch dir = some (changesOf plan.writes plan.removes) := by rw [StartCall.batch, h]; rfl

/-- The first call changes unit files and fails to reload, the second finds nothing to change and goes on. -/
theorem stale_start :
    ¬ StartsFresh (runCalls [startSway (.error .dbus), startSway (.ok ())] ⟨emptyRung, []⟩).history := by
  obtain ⟨m, hm, -⟩ := load_of_accounted pristine_emptyRung.accounted
  have hplan := planGenerate_pristine swayInput pristine_emptyRung hm
  have hcall := plan_startSway (.error .dbus) hplan (conflicts_pristine pristine_emptyRung)
  obtain ⟨plan', hagain, hwrites, hremoves, hconf⟩ := plan_again swayInput pristine_emptyRung
    fun _ _ _ => rfl
  have hcall' := plan_startSway (.ok ()) hagain hconf
  have hdir : ((startSway (.error .dbus)).run ⟨emptyRung, []⟩).dir = (generating usrBin swayInput).run emptyRung := by
    rw [run_of_plan hcall]
    simp only [generating, Call.run, hplan]
    rfl
  -- the first call is to write at least one unit
  have hchanges : (startSway (.error .dbus)).changes emptyRung = true := by
    obtain ⟨unit, hunit⟩ := List.exists_mem_of_ne_nil _ graph_ne_nil
    have hmem : (unit.name, some (render unit.body usrBin)) ∈
        batchOf emptyRung m (targets usrBin swayInput.toDropinInput false true) :=
      mem_changesOf.2 ⟨writeTarget unit.name (render unit.body usrBin),
        List.mem_append_left _ (List.mem_append_left _ (List.mem_map.2 ⟨unit, hunit, rfl⟩)), rfl⟩
    obtain ⟨first, rest, hbatch⟩ := List.exists_cons_of_ne_nil (List.ne_nil_of_mem hmem)
    rw [batchOf] at hbatch
    rw [StartCall.changes, batch_startSway hcall, Option.any_some, hbatch]
    rfl
  have hreloads : (startSway (.error .dbus)).reloads emptyRung = false := by
    rw [StartCall.reloads, batch_startSway hcall, Option.any_some]
    exact Bool.and_false _
  have hidle : (startSway (.ok ())).idle ((startSway (.error .dbus)).run ⟨emptyRung, []⟩).dir = true := by
    rw [hdir, StartCall.idle, batch_startSway hcall', hwrites, hremoves]
    rfl
  intro h
  have hfresh : Fresh [] := fun newer q older h => absurd h (by simp)
  have hcovered := ((startsFresh_runCalls (s := ⟨emptyRung, []⟩) (iff_of_true rfl hfresh)).1 h).2
  have howed := hcovered.2.1 hidle rfl
  rw [StartCall.owes, hreloads, hchanges] at howed
  cases howed

end Wsmr
