import Wsmr.Session.Process

/-!
# The processes of a running session (`src/session/finalize.rs`, `exec.rs`, `wait.rs`, `cleanup.rs`)

`finalize` and the readiness watcher export variables while a session is up. Both record names
before they set them, and end with `systemd-notify` (a process that replaces itself returns `Ok`
here). `cleanup-env` ends the session.
-/

namespace Wsmr

open Text Std Effects

def wmPattern : List Str := ["wayland-wm@*.service".toList]

/-- Declare readiness if a compositor unit is still activating, else narrow notification access. -/
def notifyReady (narrow : List Str → Task Bool) : Task Unit := do
  let activating ← ask (.unitsByPatterns ["activating".toList] wmPattern)
  if !activating.isEmpty then ask (.execSystemdNotify ["READY=1".toList, "NOTIFYACCESS=exec".toList])
  else do
    let units ← ask (.unitsByPatterns ["active".toList, "activating".toList] wmPattern)
    let wide ← narrow units
    if wide then ask (.execSystemdNotify ["NOTIFYACCESS=exec".toList]) else return ()

/-! ## `finalize` -/

def addExport (env map : Env) (name : Str) : Env :=
  if keepName name then
    match env[name]? with
    | some val => map.insert name val
    | none => map
  else map

/-- The variables of `names` the process has, with valid names. -/
def exportOf (env : Env) (names : List Str) : Env := names.foldl (addExport env) ∅

theorem keepName_foldl_addExport {env : Env} : ∀ {names : List Str} {map : Env}, KeptNames map →
    KeptNames (names.foldl (addExport env) map)
  | [], _, h => h
  | name :: names, map, h => show KeptNames (names.foldl (addExport env) (addExport env map name)) from
    keepName_foldl_addExport fun k v hv => by
    unfold addExport at hv
    split at hv
    · rename_i hk
      split at hv
      · by_cases hkn : name = k
        · exact hkn ▸ hk
        · rw [TreeMap.getElem?_insert_ne hkn] at hv
          exact h k v hv
      · exact h k v hv
    · exact h k v hv

theorem keptNames_exportOf (env : Env) (names : List Str) : KeptNames (exportOf env names) :=
  keepName_foldl_addExport fun k v hv => by simp at hv

/-- A failing look at the unit is an error. -/
def finalizeNarrows : List Str → Task Bool
  | unit :: _ => do
    let access ← ask (.notifyAccess unit)
    return access == "all".toList
  | [] => return false

/-- `env`: the environment of the process. -/
def finalize (env : Env) (extraVars : List Str) : Task Unit :=
  if (env["WAYLAND_DISPLAY".toList]?).getD [] = [] then
    throw (.resolve
      "WAYLAND_DISPLAY is not set — are we being run by a Wayland compositor?".toList)
  else do
    let vars := exportOf env (["WAYLAND_DISPLAY".toList, "DISPLAY".toList] ++ extraVars)
    (Cmd.appendCleanup vars.keys).call
    (Cmd.setSystemdVars vars).call
    notifyReady finalizeNarrows

theorem uses_call {P : Cmd → Prop} {c : Cmd} (h : P c) :
    Prog.Uses (S := cmds) (α := Except Error c.Value) P (fun _ => True) c.call := ⟨h, fun _ => trivial⟩

theorem uses_finalizeNarrows {P : Cmd → Prop} {Q : Except Error Bool → Prop}
    (hP : ∀ unit, P (.ask (.notifyAccess unit))) (hQ : ∀ r, Q r) :
    ∀ units, Prog.Uses (S := cmds) (α := Except Error Bool) P Q (finalizeNarrows units)
  | [] => hQ _
  | unit :: _ => Prog.uses_ebind (uses_call (hP unit)) (fun _ _ => hQ _) fun _ _ => hQ _

/-! ## The readiness watcher -/

/-- One look at the environment; `retry` gets the names still missing. -/
def pollOnce (expected : Names) (retry : List Str → Task Unit) : Task Unit := do
  let present ← Cmd.systemdVars.call
  if expected.toList.all present.contains then return ()
  else retry (expected.toList.filter fun k => !present.contains k)

/-- Poll until all of `expected` are there; `polls` more polls fit into the timeout. -/
def waitenv (expected : Names) : Nat → Task Unit
  | 0 => pollOnce expected fun missing =>
    throw (.resolve ("timed out waiting for activation-env variables: ".toList ++
      List.intercalate ", ".toList missing))
  | polls + 1 => pollOnce expected fun _ => waitenv expected polls

/-- The bindings of `envPost` that `envPre` does not have. -/
def newBindings (envPre envPost : Env) : Env := envPost.filter fun k v => envPre[k]? != some v

/-- Record the changed names, then set them to the values read. -/
def syncDelta (delta : Env) : Task Unit :=
  if delta.isEmpty then return ()
  else do
    (Cmd.appendCleanup delta.keys).call
    (Cmd.setSystemdVars delta).call

/-- A failing look at the unit counts as narrow access. -/
def watcherNarrows (unit : Str) (units : List Str) : Task Bool :=
  if units.isEmpty then return false
  else attempt (ask (.notifyAccess unit)) fun
    | .ok access => return access == "all".toList
    | .error _ => return false

theorem getElem?_of_newBindings {envPre envPost : Env} {k v : Str}
    (h : (newBindings envPre envPost)[k]? = some v) : envPost[k]? = some v := by
  unfold newBindings at h
  rw [ExtTreeMap.getElem?_filter', Option.filter_eq_some_iff] at h
  exact h.1

section
variable {P : Cmd → Prop}

theorem uses_pollOnce {Q : Except Error Unit → Prop} {expected : Names} {retry : List Str → Task Unit}
    (hP : P .systemdVars) (hQ : ∀ r, Q r)
    (h : ∀ missing, Prog.Uses (S := cmds) (α := Except Error Unit) P Q (retry missing)) :
    Prog.Uses (S := cmds) (α := Except Error Unit) P Q (pollOnce expected retry) := by
  refine Prog.uses_ebind (uses_call hP) (fun present _ => ?_) fun _ _ => hQ _
  split
  · exact hQ _
  · exact h _

theorem uses_waitenv {Q : Except Error Unit → Prop} (hP : P .systemdVars) (hQ : ∀ r, Q r) (expected : Names) :
    ∀ polls, Prog.Uses (S := cmds) (α := Except Error Unit) P Q (waitenv expected polls)
  | 0 => uses_pollOnce hP hQ fun _ => hQ _
  | polls + 1 => uses_pollOnce hP hQ fun _ => uses_waitenv hP hQ expected polls

theorem uses_watcherNarrows {Q : Except Error Bool → Prop} (hP : ∀ unit, P (.ask (.notifyAccess unit)))
    (hQ : ∀ r, Q r) (unit : Str) (units : List Str) :
    Prog.Uses (S := cmds) (α := Except Error Bool) P Q (watcherNarrows unit units) := by
  unfold watcherNarrows
  split
  · exact hQ _
  · refine Prog.uses_bind (uses_call (hP unit)) fun r _ => ?_
    cases r with
    | ok access => exact hQ _
    | error e => exact hQ _

end

/-- The start timeout of a unit, if it can be read. -/
def startTimeout (unit : Str) : Task (Option Nat) := attempt (ask (.timeoutStart unit)) fun r => return r.toOption

/-- `waitVarnames` is `$UWSM_WAIT_VARNAMES`; `polls` says how many polls fit into a start timeout, or into
`wait_timeout` without one. -/
def readinessWatch (idUnitString waitVarnames : Str) (polls : Option Nat → Nat) : Task Unit := do
  let envPre ← Cmd.systemdVars.call
  let unit := "wayland-wm@".toList ++ idUnitString ++ ".service".toList
  let timeout ← startTimeout unit
  waitenv (ExtTreeSet.ofList
    (("WAYLAND_DISPLAY".toList :: splitWhitespace waitVarnames).filter keepName)) (polls timeout)
  let envPost ← Cmd.systemdVars.call
  let delta := newBindings envPre envPost
  syncDelta delta
  notifyReady (watcherNarrows unit)

/-- A process that exports variables during a session. -/
inductive Exporter where
  | finalize (env : Env) (extraVars : List Str)
  | readinessWatch (idUnitString waitVarnames : Str) (polls : Option Nat → Nat)

def Exporter.task : Exporter → Task Unit
  | .finalize env extraVars => Wsmr.finalize env extraVars
  | .readinessWatch idUnitString waitVarnames polls => Wsmr.readinessWatch idUnitString waitVarnames polls

/-! ## `cleanup-env` -/

/-- The helper scripts it removes as well are not on `Disk`. -/
def cleanupEnv : Task Unit := do
  Cmd.endGeneration.call
  (Cmd.removeFile .sessionConf).call

end Wsmr
