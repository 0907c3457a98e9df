import Wsmr.Lib.Poll
import Wsmr.Lib.Stateful
import Wsmr.Session.Prepare
import Wsmr.Session.Start
import Wsmr.Units.Ownership

/-!
# The `start` command (`src/session/start.rs`)

All of `run`: the checks that only look, the generation, the reload, and what makes the process the anchor of
the session. `Session/Start.lean` follows one part of it through many calls; here one call is followed to its
end. Nothing is touched before every check has passed, every step comes after the ones before it have worked,
and the process is only replaced when all of them have (`start_order`). The login environment is then there for
the preloader.
-/

namespace Wsmr

open Text Effects UndoLog

inductive GstGate where
  | disabled
  | warn (timeout : Nat)
  | abort (timeout : Nat)

/-- `wait_for_unit`, which looks at the state of the unit, if there is one. -/
def waitForUnit (states : List Str) (timeout : Nat) : Poll.Wait (Except Error (Option Str)) (Except Error Bool) where
  judge
    | .error e => some (.error e)
    | .ok none => none
    | .ok (some state) => if states.contains state then some (.ok true) else none
  giveUp _ := .ok false
  timeout := timeout
  nap := 500000000
  nap_pos := by decide

/-- What the system answers to a `start`. -/
structure StartAnswers where
  systemBus : Except Error Unit
  graphicalTarget : Poll.Looks (Except Error (Option Str)) 500000000
  sessionBus : Except Error Unit
  bus : SessionBus
  pid : Nat
  /-- Whether `systemctl start` has succeeded. -/
  systemctl : Except Error Bool
  environ : Env
  save : File → Except Error Unit
  /-- The path of the script. -/
  extract : Except Error Str
  dup2 : Nat → Nat → Except Error Unit
  /-- `none`: the process is replaced. -/
  exec : Option Error

inductive StartEvent where
  | changed (relname : Str)
  | reloaded
  | bound (unit : Str)
  | saved (f : File) (text : Str)
  | extracted
  | redirected (src dst : Nat)
  | replaced (argv : List Str)

inductive StartResult where
  | dryRun
  | generated
  | replaced

structure Starting where
  dir : Rung
  /-- Oldest first. -/
  log : List StartEvent
  stdout : List Str
  stderr : List Str
  journal : List Str

abbrev StartRun (α : Type) := Stateful.Io Error Starting α

namespace Starting

def println (line : Str) : StartRun Unit := fun s => (.ok (), { s with stdout := s.stdout ++ [line] })

def eprintln (line : Str) : StartRun Unit := fun s => (.ok (), { s with stderr := s.stderr ++ [line] })

def logNotice (text : Str) : StartRun Unit := fun s => (.ok (), { s with journal := s.journal ++ [text] })

/-- A call that is on record when it has worked. -/
def carryOut {α : Type} (event : StartEvent) (answer : Except Error α) : StartRun α := fun s =>
  (answer, if answer.isOk then { s with log := s.log ++ [event] } else s)

/-- Unit files that have changed, oldest first. -/
def filesChanged (dir dir' : Rung) : List StartEvent :=
  (gained dir dir').reverse.filterMap fun e => match e with
    | .changed relname => some (.changed relname)
    | _ => none

/-- Work on the directory. -/
def inUnits {α : Type} (faults : FsFaults) (p : FsIo α) : StartRun α := fun s =>
  let r := runFs faults p s.dir
  (r.1, { s with dir := r.2, log := s.log ++ filesChanged s.dir r.2 })

end Starting

open Starting

def reachedStates : List Str := ["active".toList, "activating".toList]

def targetMissed : Error := .resolve "system has not reached graphical.target; aborting".toList

def lateWarning : Str :=
  ("wsmr: system has not reached graphical.target. It might be a good idea to check the " ++
    "default system target, or screen for this with \"wsmr check may-start\". Continuing in 5 seconds...").toList

/-- The end of `gst_gate`, which is to go on, or to wait for five seconds more. -/
def afterWait (abort reached : Bool) : StartRun Unit :=
  if reached then return ()
  else if abort then throw targetMissed
  else eprintln lateWarning

def gstGate (w : StartAnswers) (timeout : Nat) (abort : Bool) : StartRun Unit := do
  w.systemBus
  let reached ← (waitForUnit reachedStates timeout).await w.graphicalTarget
  afterWait abort reached

def GstGate.check (w : StartAnswers) : GstGate → StartRun Unit
  | .disabled => return ()
  | .warn timeout => gstGate w timeout false
  | .abort timeout => gstGate w timeout true

/-- How a dry run names a file that is to be written. -/
def writeLine (reclaimed : List Str) (relname : Str) : Str :=
  if reclaimed.contains relname then
    "  ~ ".toList ++ relname ++ " (reclaiming a stale foreign copy — no session is active)".toList
  else "  + ".toList ++ relname

/-- The lines of `report_plan`. -/
def planReport (path : Str) (plan : GenerationPlan) : List Str :=
  let idle := plan.writes.isEmpty && plan.removes.isEmpty
  ("Dry run: units in ".toList ++ path) ::
    if idle && plan.conflicts.isEmpty then ["  (unchanged)".toList]
    else plan.writes.map (fun w => writeLine plan.reclaimed w.relname) ++
      plan.removes.map (fun r => "  - ".toList ++ r.relname) ++
      plan.conflicts.map (fun c => "  ! ".toList ++ c.relname ++ " (blocked — ".toList ++ c.reason ++ ")".toList) ++
      if !plan.conflicts.isEmpty then ["  would refuse: paths above are not verifiably owned by wsmr".toList]
      else if !idle then ["  (would reload the systemd user manager)".toList] else []

/-- The lines of `report`. -/
def generationReport (path : Str) (outcome : GenOutcome) : List Str :=
  ("Generated units in ".toList ++ path) ::
    if outcome.changed then
      outcome.written.map ("  + ".toList ++ ·) ++ outcome.removed.map ("  - ".toList ++ ·)
    else ["  (unchanged)".toList]

def saveLoginEnvs (w : StartAnswers) : StartRun Unit := do
  carryOut (.saved .envLogin (serializeEnv w.environ .nul)) (w.save .envLogin)
  carryOut (.saved .sessionConf (sessionConf w.environ)) (w.save .sessionConf)

def anchorArgv (comp : CompGlobals) (script : Str) : List Str :=
  ["systemd-cat".toList, "--identifier=wsmr".toList, "--stderr-priority=err".toList, "--".toList, "/bin/sh".toList,
    script, "wayland-session-envelope@".toList ++ comp.idUnitString ++ ".target".toList]

def bindpidUnit (pid : Nat) : Str := "wayland-session-bindpid@".toList ++ decimal pid ++ ".service".toList

/-- Steps (5) to (7). -/
def becomeAnchor (w : StartAnswers) (comp : CompGlobals) : StartRun StartResult := do
  carryOut (.bound (bindpidUnit w.pid)) (w.systemctl.bind fun success =>
    if success then .ok () else .error (.resolve "failed to start the bindpid unit".toList))
  saveLoginEnvs w
  let script ← carryOut .extracted w.extract
  carryOut (.redirected 1 3) (w.dup2 1 3)
  carryOut (.redirected 2 4) (w.dup2 2 4)
  carryOut (.replaced (anchorArgv comp script)) (match w.exec with
    | none => .ok ()
    | some e => .error e)
  return .replaced

/-- Steps (4) and on. -/
def applyPlan (w : StartAnswers) (comp : CompGlobals) (opts : StartOpts) (faults : FsFaults) (path : Str)
    (plan : GenerationPlan) : StartRun StartResult := do
  let outcome ← inUnits faults (applyGenerate path plan)
  if outcome.changed then carryOut .reloaded w.bus.reload
  if opts.onlyGenerate then do
    forM (generationReport path outcome) println
    return .generated
  else becomeAnchor w comp

/-- Step (3) and on, once there is a plan. -/
def reportAndApply (w : StartAnswers) (comp : CompGlobals) (opts : StartOpts) (faults : FsFaults) (path : Str)
    (plan : GenerationPlan) : StartRun StartResult := do
  if opts.dryRun then forM (planReport path plan) println
  if !plan.conflicts.isEmpty then throw (conflictError path plan.conflicts)
  if opts.dryRun then do
    println ("Dry run: would start ".toList ++ comp.id ++ ".".toList)
    return .dryRun
  else do
    if !plan.reclaimed.isEmpty then
      logNotice ("wsmr: adopting ".toList ++ decimal plan.reclaimed.length ++
        (" stale unit override(s) left behind by another session (none is " ++ "currently active): ").toList ++
        List.intercalate ", ".toList plan.reclaimed)
    applyPlan w comp opts faults path plan

def runWithReports (w : StartAnswers) (comp : CompGlobals) (opts : StartOpts) (faults : FsFaults) :
    StartRun StartResult := do
  refuseIfActive (← w.bus.isActive)
  let dir := (← get).dir
  let plan ← planGenerate dir opts.ctx (buildDropins comp opts.binPath) opts.tweaks true
  reportAndApply w comp opts faults dir.path plan

def runStart (w : StartAnswers) (comp : CompGlobals) (opts : StartOpts) (gate : GstGate) (faults : FsFaults) :
    StartRun StartResult := do
  if !opts.onlyGenerate && !opts.dryRun then gate.check w
  w.sessionBus
  runWithReports w comp opts faults

/-! ## The steps after the generation -/

section
variable {w : StartAnswers} {comp : CompGlobals} {opts : StartOpts} {faults : FsFaults} {path : Str}

/-- The program notes `es`, and leaves the directory alone. -/
abbrev Notes {α : Type} (p : StartRun α) (es : List StartEvent) (Q : α → Prop) : Prop :=
  Stateful.Does Starting.log Starting.dir p es Q

theorem notes_carryOut {α β : Type} {event : StartEvent} {answer : Except Error α} {f : α → StartRun β}
    {es : List StartEvent} {R : β → Prop} (h : ∀ a, answer = .ok a → Notes (f a) es R) :
    Notes (carryOut event answer >>= f) (event :: es) R := by
  have hfirst : Notes (carryOut event answer) [event] fun a => answer = .ok a := by
    intro s
    cases answer with
    | error e => exact ⟨[], List.nil_prefix, (List.append_nil _).symm, rfl, fun a ha => by cases ha⟩
    | ok a => exact ⟨[event], List.prefix_rfl, rfl, rfl, fun b hb => ⟨rfl, hb⟩⟩
  exact Stateful.does_bind hfirst h

/-- What is on record once the process has been replaced. -/
def anchoring (w : StartAnswers) (comp : CompGlobals) : List StartEvent :=
  [.bound (bindpidUnit w.pid), .saved .envLogin (serializeEnv w.environ .nul),
    .saved .sessionConf (sessionConf w.environ), .extracted, .redirected 1 3, .redirected 2 4,
    .replaced (anchorArgv comp (w.extract.toOption.getD []))]

theorem notes_becomeAnchor : Notes (becomeAnchor w comp) (anchoring w comp) fun result => result = .replaced := by
  unfold becomeAnchor saveLoginEnvs
  simp only [bind_assoc]
  refine notes_carryOut fun _ _ => notes_carryOut fun _ _ => notes_carryOut fun _ _ => ?_
  refine notes_carryOut fun script hscript => notes_carryOut fun _ _ => notes_carryOut fun _ _ => ?_
  rw [hscript]
  exact notes_carryOut fun _ _ => Stateful.does_pure rfl

theorem notes_nothing {α : Type} {p : StartRun α} (hlog : ∀ s, (p s).2.log = s.log) (hdir : ∀ s, (p s).2.dir = s.dir) :
    Notes p [] fun _ => True :=
  Stateful.does_nothing hlog hdir fun _ _ _ => trivial

theorem Starting.forM_println {α : Type} (line : α → Str) (xs : List α) (s : Starting) :
    (forM xs fun x => println (line x)) s = (.ok ⟨⟩, { s with stdout := s.stdout ++ xs.map line }) :=
  Stateful.run_forM (fun (s : Starting) xs => { s with stdout := s.stdout ++ xs.map line }) (by simp)
    (by simp [println]) xs

/-- The steps that follow a generation that has worked. -/
def sequel (w : StartAnswers) (comp : CompGlobals) (opts : StartOpts) (changed : Bool) : List StartEvent :=
  (if changed then [.reloaded] else []) ++ if opts.onlyGenerate then [] else anchoring w comp

/-- What a successful generation leads to. -/
def StartOpts.aim (opts : StartOpts) : StartResult := if opts.onlyGenerate then .generated else .replaced

theorem notes_sequel (outcome : GenOutcome) : Notes (do
    if outcome.changed then carryOut .reloaded w.bus.reload
    if opts.onlyGenerate then do
      forM (generationReport path outcome) println
      return StartResult.generated
    else becomeAnchor w comp) (sequel w comp opts outcome.changed) fun result => result = opts.aim := by
  have hlast : Notes (if opts.onlyGenerate then do
      forM (generationReport path outcome) println
      return StartResult.generated
    else becomeAnchor w comp) (if opts.onlyGenerate then [] else anchoring w comp)
      fun result => result = opts.aim := by
    unfold StartOpts.aim
    split
    · have hreport : Notes (forM (generationReport path outcome) println) [] fun _ => True := by
        refine notes_nothing ?_ ?_
        all_goals
          intro s
          rw [Starting.forM_println]
      exact Stateful.does_bind hreport fun _ _ => Stateful.does_pure rfl
    · exact notes_becomeAnchor
  unfold sequel
  cases outcome.changed with
  | true => exact notes_carryOut fun _ _ => hlast
  | false => exact hlast

end

/-! ## The checks -/

section
variable {w : StartAnswers} {comp : CompGlobals} {opts : StartOpts} {faults : FsFaults}

/-- A look that does not find the unit in one of the states. -/
def Pending (states : List Str) (look : Except Error (Option Str)) : Prop :=
  ∃ found, look = .ok found ∧ ∀ state, found = some state → state ∉ states

/-- The unit was seen in one of the states, by a look that came in time or was the first one. -/
def Reached (looks : Poll.Looks (Except Error (Option Str)) 500000000) (timeout : Nat) : Prop :=
  ∃ k, (∃ state ∈ reachedStates, (looks.see k).1 = .ok (some state)) ∧
    ∀ i < k, Pending reachedStates (looks.see i).1 ∧ (looks.see i).2 < timeout

/-- The time was over, and the unit had not been seen in one of the states. -/
def Late (looks : Poll.Looks (Except Error (Option Str)) 500000000) (timeout : Nat) : Prop :=
  ∃ k, (Pending reachedStates (looks.see k).1 ∧ timeout ≤ (looks.see k).2) ∧
    ∀ i < k, Pending reachedStates (looks.see i).1 ∧ (looks.see i).2 < timeout

theorem judge_eq_none {states : List Str} {timeout : Nat} {look : Except Error (Option Str)} :
    (waitForUnit states timeout).judge look = none ↔ Pending states look := by
  cases look with
  | error e => simp [waitForUnit, Pending]
  | ok found => cases found <;> simp [waitForUnit, Pending]

theorem judge_eq_true {states : List Str} {timeout : Nat} {look : Except Error (Option Str)} :
    (waitForUnit states timeout).judge look = some (.ok true) ↔ ∃ state ∈ states, look = .ok (some state) := by
  cases look with
  | error e => simp [waitForUnit]
  | ok found => cases found <;> simp [waitForUnit]

/-- No look gives `false` before the time is over. -/
theorem judge_ne_false {states : List Str} {timeout : Nat} {look : Except Error (Option Str)} :
    (waitForUnit states timeout).judge look ≠ some (.ok false) := by
  cases look with
  | error e => simp [waitForUnit]
  | ok found => cases found <;> simp [waitForUnit]

theorem result_of_pending {states : List Str} {timeout : Nat} {look : Except Error (Option Str) × Nat}
    (h : Pending states look.1) : (waitForUnit states timeout).result look = .ok false := by
  rw [Poll.Wait.result, judge_eq_none.2 h]
  rfl

/-- What the gate waits for. -/
theorem await_reached {timeout : Nat} :
    ((waitForUnit reachedStates timeout).await w.graphicalTarget = .ok true ↔ Reached w.graphicalTarget timeout) ∧
      ((waitForUnit reachedStates timeout).await w.graphicalTarget = .ok false ↔ Late w.graphicalTarget timeout) := by
  have hgoing : ∀ i, ¬ (waitForUnit reachedStates timeout).Ends w.graphicalTarget.see i ↔
      Pending reachedStates (w.graphicalTarget.see i).1 ∧ (w.graphicalTarget.see i).2 < timeout := fun i => by
    rw [Poll.Wait.not_ends, judge_eq_none]
    rfl
  refine ⟨Poll.Wait.await_eq_iff.trans ⟨?_, ?_⟩, Poll.Wait.await_eq_iff.trans ⟨?_, ?_⟩⟩
  · rintro ⟨k, hlast, hresult⟩
    refine ⟨k, ?_, fun i hi => (hgoing i).1 (hlast.first i hi)⟩
    by_cases hpending : Pending reachedStates (w.graphicalTarget.see k).1
    · rw [result_of_pending hpending] at hresult
      cases hresult
    · obtain ⟨r, hr⟩ := Option.ne_none_iff_exists'.1 fun h => hpending (judge_eq_none.1 h)
      rw [Poll.Wait.result, hr] at hresult
      obtain rfl : r = .ok true := hresult
      exact judge_eq_true.1 hr
  · rintro ⟨k, hseen, hearlier⟩
    have hjudge := (@judge_eq_true reachedStates timeout _).2 hseen
    refine ⟨k, ⟨Or.inl (by rw [hjudge]; rfl), fun i hi => (hgoing i).2 (hearlier i hi)⟩, ?_⟩
    rw [Poll.Wait.result, hjudge]
    rfl
  · rintro ⟨k, hlast, hresult⟩
    refine ⟨k, ?_, fun i hi => (hgoing i).1 (hlast.first i hi)⟩
    by_cases hpending : Pending reachedStates (w.graphicalTarget.see k).1
    · refine ⟨hpending, ?_⟩
      by_contra hintime
      exact (hgoing k).2 ⟨hpending, not_le.1 hintime⟩ hlast.ends
    · obtain ⟨r, hr⟩ := Option.ne_none_iff_exists'.1 fun h => hpending (judge_eq_none.1 h)
      rw [Poll.Wait.result, hr] at hresult
      obtain rfl : r = .ok false := hresult
      exact absurd hr judge_ne_false
  · rintro ⟨k, ⟨hpending, hlate⟩, hearlier⟩
    exact ⟨k, ⟨Or.inr hlate, fun i hi => (hgoing i).2 (hearlier i hi)⟩, result_of_pending hpending⟩

/-- The gate lets the session start. -/
def GstGate.Open (w : StartAnswers) : GstGate → Prop
  | .disabled => True
  | .warn timeout => w.systemBus = .ok () ∧ (Reached w.graphicalTarget timeout ∨ Late w.graphicalTarget timeout)
  | .abort timeout => w.systemBus = .ok () ∧ Reached w.graphicalTarget timeout

variable {gate : GstGate}

/-- The result of the gate, and its warnings. -/
def gateResult (systemBus : Except Error Unit) (abort : Bool) (wait : Except Error Bool) :
    Except Error Unit × List Str :=
  match systemBus, wait with
  | .error e, _ => (.error e, [])
  | .ok _, .error e => (.error e, [])
  | .ok _, .ok true => (.ok (), [])
  | .ok _, .ok false => if abort then (.error targetMissed, []) else (.ok (), [lateWarning])

theorem gateResult_ok {systemBus : Except Error Unit} {abort : Bool} {wait : Except Error Bool} :
    (gateResult systemBus abort wait).1 = .ok () ↔
      systemBus = .ok () ∧ (wait = .ok true ∨ abort = false ∧ wait = .ok false) := by
  cases systemBus with
  | error e => simp [gateResult]
  | ok _ =>
    cases wait with
    | error e => simp [gateResult]
    | ok reached => cases reached <;> cases abort <;> simp [gateResult]

theorem afterWait_eq {abort reached : Bool} {s : Starting} : afterWait abort reached s =
    let r := gateResult (.ok ()) abort (.ok reached)
    (r.1, { s with stderr := s.stderr ++ r.2 }) := by
  unfold afterWait
  cases reached with
  | true => simp only [gateResult, if_true, Stateful.run_pure, List.append_nil]
  | false =>
    cases abort with
    | true =>
      simp only [gateResult, Bool.false_eq_true, if_true, if_false, List.append_nil]
      rfl
    | false => simp only [gateResult, Bool.false_eq_true, if_false, eprintln]

theorem gate_eq {systemBus : Except Error Unit} {wait : Except Error Bool} {abort : Bool} {s : Starting} :
    (do
      systemBus
      let reached ← wait
      afterWait abort reached : StartRun Unit) s =
      let r := gateResult systemBus abort wait
      (r.1, { s with stderr := s.stderr ++ r.2 }) := by
  rw [Stateful.run_bind, Stateful.run_lift]
  cases systemBus with
  | error e => simp only [gateResult, List.append_nil]
  | ok _ =>
    dsimp only
    rw [Stateful.run_bind, Stateful.run_lift]
    cases wait with
    | error e => simp only [gateResult, List.append_nil]
    | ok reached => exact afterWait_eq

theorem gstGate_eq {timeout : Nat} {abort : Bool} {s : Starting} : gstGate w timeout abort s =
    let r := gateResult w.systemBus abort ((waitForUnit reachedStates timeout).await w.graphicalTarget)
    (r.1, { s with stderr := s.stderr ++ r.2 }) := by
  unfold gstGate
  rw [gate_eq]

/-- The gate only looks, and warns. -/
theorem check_gate : ∃ (r : Except Error Unit) (warnings : List Str),
    (∀ s, gate.check w s = (r, { s with stderr := s.stderr ++ warnings })) ∧ (r = .ok () ↔ gate.Open w) := by
  have hgate : ∀ timeout abort, (gateResult w.systemBus abort
      ((waitForUnit reachedStates timeout).await w.graphicalTarget)).1 = .ok () ↔ w.systemBus = .ok () ∧
        (Reached w.graphicalTarget timeout ∨ abort = false ∧ Late w.graphicalTarget timeout) := by
    intro timeout abort
    obtain ⟨hreached, hlate⟩ := @await_reached w timeout
    rw [gateResult_ok, ← hreached, ← hlate]
  cases gate with
  | disabled =>
    exact ⟨.ok (), [], fun s => by rw [List.append_nil]; rfl, iff_of_true rfl trivial⟩
  | warn timeout => exact ⟨_, _, fun s => gstGate_eq, (hgate timeout false).trans (by simp [GstGate.Open])⟩
  | abort timeout => exact ⟨_, _, fun s => gstGate_eq, (hgate timeout true).trans (by simp [GstGate.Open])⟩

end

/-! ## The generation -/

/-- All that was planned is in place, and on record. -/
structure InPlace (plan : GenerationPlan) (dir : Rung) : Prop where
  files : ∀ c ∈ changesOf plan.writes plan.removes, dir.files c.1 = c.2.map .text
  record : changesOf plan.writes plan.removes ≠ [] → dir.files manifestName =
    some (.text (plan.manifest.after (changesOf plan.writes plan.removes) []).render)

section
variable {faults : FsFaults} {dir : Rung} {path : Str} {plan : GenerationPlan} {ctx : RenderCtx}
  {dropins : DropinInput} {tweaksEnabled reclaimStale : Bool}

/-- The changes of a plan are to files that could be read, and not to the manifest. -/
theorem changes_of_plan (h : planGenerate dir ctx dropins tweaksEnabled reclaimStale = .ok plan) :
    ∀ c ∈ changesOf plan.writes plan.removes, dir.Readable c.1 ∧ c.1 ≠ manifestName := by
  obtain ⟨-, hr, hp⟩ := planGenerate_ok.1 h
  intro c hc
  rw [hp] at hc
  obtain ⟨t, ht, hchange⟩ := mem_changesOf.1 hc
  rw [(of_change hchange).1]
  refine ⟨hr t ht, fun he => ?_⟩
  exact manifestName_not_mem_targets ctx dropins tweaksEnabled reclaimStale (he ▸ List.mem_map_of_mem ht)

theorem applyGenerate_files (h : planGenerate dir ctx dropins tweaksEnabled reclaimStale = .ok plan)
    (hconf : plan.conflicts = []) :
    (∀ q, q ≠ manifestName → (runFs faults (applyGenerate path plan) dir).2.files q = dir.files q ∨
      (q, (runFs faults (applyGenerate path plan) dir).2.files q) ∈
        Rung.toChanges (changesOf plan.writes plan.removes)) ∧
    ∀ outcome, (runFs faults (applyGenerate path plan) dir).1 = .ok outcome →
      outcome.changed = !(changesOf plan.writes plan.removes).isEmpty ∧
        InPlace plan (runFs faults (applyGenerate path plan) dir).2 := by
  have hchanges := changes_of_plan h
  have hn := nodup_changes_generate h
  have hm : manifestName ∉ (changesOf plan.writes plan.removes).map Prod.fst := fun hm => by
    obtain ⟨c, hc, he⟩ := List.mem_map.1 hm
    exact (hchanges c hc).2 he
  have hprog : applyGenerate path plan = runBatch path plan.manifest (changesOf plan.writes plan.removes) [] := by
    rw [applyGenerate_eq, hconf]
    rfl
  rw [hprog]
  obtain ⟨hok, hchanged⟩ := runBatch_result faults dir plan.manifest path (changesOf plan.writes plan.removes)
  refine ⟨(runBatch_within faults path plan.manifest [] (fun c hc => (hchanges c hc).1) hn hm).1,
    fun outcome hout => ⟨hchanged outcome hout, ?_⟩⟩
  obtain ⟨hthrough, hsaved⟩ := hok.1 (by rw [hout]; rfl)
  have hkeys : ((Rung.toChanges (changesOf plan.writes plan.removes)).map Prod.fst).Nodup := by
    rwa [Rung.keys_toChanges]
  have hfiles : ∀ c ∈ changesOf plan.writes plan.removes,
      (dir.putAll false (changesOf plan.writes plan.removes)).files c.1 = c.2.map .text := fun c hc => by
    rw [Rung.files_putAll]
    exact apply_of_mem hkeys (List.mem_map.2 ⟨c, hc, rfl⟩)
  rw [runBatch_through hthrough]
  by_cases hnil : changesOf plan.writes plan.removes = []
  · rw [if_pos (by simp [hnil])]
    exact ⟨hfiles, fun hne => absurd hnil hne⟩
  · rw [if_neg (by simp [hnil]), if_neg (by simp [hsaved.resolve_left hnil])]
    refine ⟨fun c hc => ?_, fun _ => Rung.files_put_self _ _ _ _⟩
    exact (Rung.files_put_of_ne (hchanges c hc).2).trans (hfiles c hc)

end

/-! ## The order of a start -/

section
variable {w : StartAnswers} {comp : CompGlobals} {opts : StartOpts} {gate : GstGate} {faults : FsFaults} {dir : Rung}
  {plan : GenerationPlan} {s : Starting}

/-- Every check has passed, and `plan` is to be carried out. -/
structure Cleared (w : StartAnswers) (comp : CompGlobals) (opts : StartOpts) (gate : GstGate) (dir : Rung)
    (plan : GenerationPlan) : Prop where
  gate : opts.onlyGenerate = false → gate.Open w
  sessionBus : w.sessionBus = .ok ()
  inactive : w.bus.isActive = .ok false
  planned : planGenerate dir opts.ctx (buildDropins comp opts.binPath) opts.tweaks true = .ok plan
  free : plan.conflicts = []
  real : opts.dryRun = false

/-- What a `start` with this plan does to the directory `dir`, in this order: the changes, and then a part of
the steps after them, the whole of them when it works. -/
structure Performed (w : StartAnswers) (comp : CompGlobals) (opts : StartOpts) (plan : GenerationPlan) (dir : Rung)
    (r : Except Error StartResult × Starting) : Prop where
  files : ∀ q, q ≠ manifestName → r.2.dir.files q = dir.files q ∨
    (q, r.2.dir.files q) ∈ Rung.toChanges (changesOf plan.writes plan.removes)
  steps : ∃ changes rest, r.2.log = changes ++ rest ∧ (∀ e ∈ changes, ∃ q, e = .changed q) ∧
    rest <+: sequel w comp opts (!(changesOf plan.writes plan.removes).isEmpty) ∧
    (rest ≠ [] → InPlace plan r.2.dir) ∧
    ∀ result, r.1 = .ok result → result = opts.aim ∧ InPlace plan r.2.dir ∧
      rest = sequel w comp opts (!(changesOf plan.writes plan.removes).isEmpty)

theorem of_mem_filesChanged {dir' : Rung} {e : StartEvent} (h : e ∈ filesChanged dir dir') :
    ∃ q, e = .changed q := by
  obtain ⟨u, hu, he⟩ := List.mem_filterMap.1 h
  obtain ⟨q, rfl⟩ := of_mem_gained (List.mem_reverse.1 hu)
  exact ⟨q, (Option.some.inj he).symm⟩

theorem performed_applyPlan (hdir : s.dir = dir) (hlog : s.log = [])
    (hplan : planGenerate dir opts.ctx (buildDropins comp opts.binPath) opts.tweaks true = .ok plan)
    (hconf : plan.conflicts = []) : Performed w comp opts plan dir (applyPlan w comp opts faults dir.path plan s) := by
  obtain ⟨hfiles, hok⟩ := @applyGenerate_files faults dir dir.path plan _ _ _ _ hplan hconf
  unfold applyPlan
  rw [Stateful.run_bind]
  unfold inUnits
  dsimp only
  rw [hdir, hlog]
  generalize runFs faults (applyGenerate dir.path plan) dir = g at hfiles hok
  obtain ⟨result, dir'⟩ := g
  cases result with
  | error e =>
    refine ⟨hfiles, filesChanged dir dir', [], by simp, fun e he => of_mem_filesChanged he, List.nil_prefix,
      fun hne => absurd rfl hne, fun result h => by cases h⟩
  | ok outcome =>
    obtain ⟨hchanged, hplace⟩ := hok outcome rfl
    obtain ⟨rest, hrest, hlog', hdir', hresult⟩ := @notes_sequel w comp opts dir.path outcome
      { s with dir := dir', log := [] ++ filesChanged dir dir' }
    dsimp only
    refine ⟨fun q hq => ?_, filesChanged dir dir', rest, hlog', fun e he => of_mem_filesChanged he, hchanged ▸ hrest,
      fun _ => ?_, fun result h => ?_⟩
    · exact hdir' ▸ hfiles q hq
    · exact hdir' ▸ hplace
    · obtain ⟨hwhole, haim⟩ := hresult result h
      exact ⟨haim, hdir' ▸ hplace, hchanged ▸ hwhole⟩

/-- What comes before the directory is looked at. -/
theorem runStart_eq : ∃ warnings,
    ((opts.onlyGenerate = false → opts.dryRun = false → gate.Open w) ∧ w.sessionBus = .ok () →
      runStart w comp opts gate faults s =
        runWithReports w comp opts faults { s with stderr := s.stderr ++ warnings }) ∧
    (¬ ((opts.onlyGenerate = false → opts.dryRun = false → gate.Open w) ∧ w.sessionBus = .ok ()) →
      ∃ e, runStart w comp opts gate faults s = (.error e, { s with stderr := s.stderr ++ warnings })) := by
  obtain ⟨r, warnings, hcheck, hopen⟩ := @check_gate w gate
  have hbus : ∀ t, ((do
      w.sessionBus
      runWithReports w comp opts faults : StartRun StartResult) t) = match w.sessionBus with
        | .error e => (.error e, t)
        | .ok _ => runWithReports w comp opts faults t := fun t => by
    rw [Stateful.run_bind, Stateful.run_lift]
    cases w.sessionBus <;> rfl
  -- the session bus, after the gate
  have hrest : (gate.Open w ∨ opts.onlyGenerate = true ∨ opts.dryRun = true) → ∀ t,
      ((opts.onlyGenerate = false → opts.dryRun = false → gate.Open w) ∧ w.sessionBus = .ok () →
        (do
          w.sessionBus
          runWithReports w comp opts faults : StartRun StartResult) t = runWithReports w comp opts faults t) ∧
      (¬ ((opts.onlyGenerate = false → opts.dryRun = false → gate.Open w) ∧ w.sessionBus = .ok ()) →
        ∃ e, (do
          w.sessionBus
          runWithReports w comp opts faults : StartRun StartResult) t = (.error e, t)) := by
    intro hpassed t
    rw [hbus]
    cases w.sessionBus with
    | error e => exact ⟨fun h => absurd h.2 (by simp), fun _ => ⟨e, rfl⟩⟩
    | ok _ =>
      refine ⟨fun _ => rfl, fun hnot => absurd ⟨fun hgen hdry => ?_, rfl⟩ hnot⟩
      simpa [hgen, hdry] using hpassed
  unfold runStart
  by_cases hcond : (!opts.onlyGenerate && !opts.dryRun) = true
  · rw [if_pos hcond]
    simp only [Bool.and_eq_true, Bool.not_eq_true'] at hcond
    refine ⟨warnings, ?_⟩
    rw [Stateful.run_bind, hcheck]
    cases r with
    | error e =>
      refine ⟨fun hready => ?_, fun _ => ⟨e, rfl⟩⟩
      cases hopen.2 (hready.1 hcond.1 hcond.2)
    | ok _ => exact hrest (Or.inl (hopen.1 rfl)) _
  · rw [if_neg hcond]
    simp only [Bool.and_eq_true, Bool.not_eq_true', not_and_or, Bool.not_eq_false] at hcond
    refine ⟨[], ?_⟩
    rw [List.append_nil]
    exact hrest (Or.inr hcond) s

/-- A dry run prints what it plans. -/
theorem reportAndApply_dry {path : Str} (hdry : opts.dryRun = true) :
    (reportAndApply w comp opts faults path plan s).2.dir = s.dir ∧
      (reportAndApply w comp opts faults path plan s).2.log = s.log ∧
      ∀ result, (reportAndApply w comp opts faults path plan s).1 = .ok result → result = .dryRun := by
  have hprint := Starting.forM_println id (planReport path plan) s
  unfold reportAndApply
  rw [if_pos hdry, Stateful.run_bind]
  rw [show (forM (planReport path plan) println) s = _ from hprint]
  dsimp only
  cases plan.conflicts.isEmpty with
  | false => exact ⟨rfl, rfl, fun result h => by cases h⟩
  | true =>
    simp only [hdry, if_true, Bool.not_true, Bool.false_eq_true, if_false]
    exact ⟨rfl, rfl, fun result h => (Except.ok.inj h).symm⟩

theorem reportAndApply_real {path : Str} (hreal : opts.dryRun = false) : ∃ journal,
    reportAndApply w comp opts faults path plan s =
      if plan.conflicts.isEmpty then applyPlan w comp opts faults path plan { s with journal := journal }
      else (.error (conflictError path plan.conflicts), s) := by
  unfold reportAndApply
  simp only [hreal, Bool.false_eq_true, if_false]
  cases plan.conflicts.isEmpty with
  | false => exact ⟨[], rfl⟩
  | true =>
    simp only [Bool.not_true, Bool.false_eq_true, if_false, if_true]
    cases plan.reclaimed.isEmpty with
    | true => exact ⟨s.journal, rfl⟩
    | false => exact ⟨_, rfl⟩

theorem runWithReports_eq : runWithReports w comp opts faults s =
    match w.bus.isActive, planGenerate s.dir opts.ctx (buildDropins comp opts.binPath) opts.tweaks true with
    | .ok false, .ok plan => reportAndApply w comp opts faults s.dir.path plan s
    | .ok false, .error e => (.error e, s)
    | .ok true, _ => (.error (.resolve "a compositor or graphical session is already active".toList), s)
    | .error e, _ => (.error e, s) := by
  unfold runWithReports
  rw [Stateful.run_bind, Stateful.run_lift]
  cases w.bus.isActive with
  | error e => rfl
  | ok active =>
    dsimp only
    rw [Stateful.run_bind, Stateful.run_lift]
    cases active with
    | true => rfl
    | false =>
      show ((liftM (planGenerate s.dir opts.ctx (buildDropins comp opts.binPath) opts.tweaks true) : StartRun _) >>=
        fun plan => reportAndApply w comp opts faults s.dir.path plan) s = _
      rw [Stateful.run_bind, Stateful.run_lift]
      cases planGenerate s.dir opts.ctx (buildDropins comp opts.binPath) opts.tweaks true <;> rfl

theorem performed_runStart (h : Cleared w comp opts gate dir plan) :
    Performed w comp opts plan dir (runStart w comp opts gate faults ⟨dir, [], [], [], []⟩) := by
  obtain ⟨warnings, hready, -⟩ := @runStart_eq w comp opts gate faults ⟨dir, [], [], [], []⟩
  obtain ⟨journal, hreal⟩ :=
    @reportAndApply_real w comp opts faults plan ⟨dir, [], [], [] ++ warnings, []⟩ dir.path h.real
  rw [hready ⟨fun hgen _ => h.gate hgen, h.sessionBus⟩, runWithReports_eq, h.inactive]
  dsimp only
  rw [h.planned]
  dsimp only
  rw [hreal, if_pos (List.isEmpty_iff.2 h.free)]
  exact performed_applyPlan rfl rfl h.planned h.free

/-- Nothing was touched, and what has worked was a dry run. -/
def LeftAlone (dir : Rung) (r : Except Error StartResult × Starting) : Prop :=
  r.2.dir = dir ∧ r.2.log = [] ∧ ∀ result, r.1 = .ok result → result = .dryRun

theorem leftAlone_runWithReports (hlog : s.log = [])
    (hgate : opts.onlyGenerate = false → opts.dryRun = false → gate.Open w) (hbus : w.sessionBus = .ok ())
    (h : ∀ plan, ¬ Cleared w comp opts gate s.dir plan) : LeftAlone s.dir (runWithReports w comp opts faults s) := by
  rw [runWithReports_eq]
  split
  · rename_i plan hactive hplan
    cases hdry : opts.dryRun with
    | true =>
      obtain ⟨hdir, hsame, hresult⟩ := @reportAndApply_dry w comp opts faults plan s s.dir.path hdry
      exact ⟨hdir, hsame.trans hlog, hresult⟩
    | false =>
      obtain ⟨journal, hreal⟩ := @reportAndApply_real w comp opts faults plan s s.dir.path hdry
      rw [hreal]
      split
      · rename_i hfree
        exact absurd ⟨fun hgen => hgate hgen hdry, hbus, hactive, hplan, List.isEmpty_iff.1 hfree, hdry⟩ (h plan)
      · exact ⟨rfl, hlog, fun result h => by cases h⟩
  all_goals exact ⟨rfl, hlog, fun result h => by cases h⟩

theorem leftAlone_runStart (h : ∀ plan, ¬ Cleared w comp opts gate dir plan) :
    LeftAlone dir (runStart w comp opts gate faults ⟨dir, [], [], [], []⟩) := by
  obtain ⟨warnings, hready, hnot⟩ := @runStart_eq w comp opts gate faults ⟨dir, [], [], [], []⟩
  by_cases hpassed : (opts.onlyGenerate = false → opts.dryRun = false → gate.Open w) ∧ w.sessionBus = .ok ()
  · rw [hready hpassed]
    exact @leftAlone_runWithReports w comp opts gate faults ⟨dir, [], [], [] ++ warnings, []⟩ rfl hpassed.1 hpassed.2 h
  · obtain ⟨e, he⟩ := hnot hpassed
    rw [he]
    exact ⟨rfl, rfl, fun result h => by cases h⟩

/-- The environment that was saved is the one the preloader loads. -/
theorem Performed.login {r : Except Error StartResult × Starting} (h : Performed w comp opts plan dir r)
    (hnul : NulFree w.environ) (hreplaced : r.1 = .ok .replaced) :
    ∃ text, .saved .envLogin text ∈ r.2.log ∧ loadEnv (some text) = w.environ.kept := by
  obtain ⟨changes, rest, hlog, -, -, -, hresult⟩ := h.steps
  obtain ⟨haim, -, rfl⟩ := hresult _ hreplaced
  refine ⟨serializeEnv w.environ .nul, ?_, parseEnvNul_serializeEnv hnul⟩
  have hstart : opts.onlyGenerate = false := by
    by_contra hgen
    rw [StartOpts.aim, if_pos (by simpa using hgen)] at haim
    cases haim
  rw [hlog, sequel, hstart]
  refine List.mem_append_right _ (List.mem_append_right _ ?_)
  exact List.mem_cons_of_mem _ List.mem_cons_self

/-- What holds after a `start` that began with the directory `dir`. -/
structure StartOrder (w : StartAnswers) (comp : CompGlobals) (opts : StartOpts) (gate : GstGate) (dir : Rung)
    (r : Except Error StartResult × Starting) : Prop where
  performed : ∀ plan, Cleared w comp opts gate dir plan → Performed w comp opts plan dir r
  untouched : (∀ plan, ¬ Cleared w comp opts gate dir plan) → LeftAlone dir r
  /-- The preloader is to find the login environment. -/
  login : NulFree w.environ → r.1 = .ok .replaced →
    ∃ text, .saved .envLogin text ∈ r.2.log ∧ loadEnv (some text) = w.environ.kept

/-- **The order of a start.** Whatever is answered and whatever fails: nothing is touched unless every check has
passed, which are the gate, the session bus, that no session is active, and that the plan has no conflicts.
Then the files change, as planned; the manager is reloaded if any have, the unit that is bound to the process
is started, the login environment is saved, and the process is replaced, each only when all before it has
worked, and none before the whole plan is in place and on record. A command that succeeds has done all of it. -/
theorem start_order (w : StartAnswers) (comp : CompGlobals) (opts : StartOpts) (gate : GstGate) (faults : FsFaults)
    (dir : Rung) : StartOrder w comp opts gate dir (runStart w comp opts gate faults ⟨dir, [], [], [], []⟩) := by
  refine ⟨fun plan h => performed_runStart h, leftAlone_runStart, fun hnul hreplaced => ?_⟩
  by_cases hcleared : ∃ plan, Cleared w comp opts gate dir plan
  · obtain ⟨plan, hcleared⟩ := hcleared
    exact (performed_runStart hcleared).login hnul hreplaced
  · cases (leftAlone_runStart fun plan hplan => hcleared ⟨plan, hplan⟩).2.2 _ hreplaced

end

end Wsmr
