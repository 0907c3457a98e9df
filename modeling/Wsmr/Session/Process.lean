import Wsmr.Lib.Pool
import Wsmr.Session.State

/-!
# Session processes

`prepare-env`, `finalize`, the readiness watcher and `cleanup-env` are processes of their own. Each
is a program whose steps (`Cmd`) are whole critical sections, updates of the activation environment,
single file operations and questions to the surroundings (`Query`). A step runs its program over
`Prim`; a process that is killed in a step leaves behind what that program had done so far. The
processes of a session run in a pool (`Lib/Pool.lean`): they take their steps in any order.

The history beside the world is not read by any process: whether `begin_generation` has returned
`Ok`, and what each process has set in systemd's environment, newest first.
-/

namespace Wsmr

open Text Std Effects

/-- Questions to logind, systemd, the kernel and the shell; any answer is possible. -/
inductive Query where
  | fgVtText
  | sessionByVt (vt : Nat)
  | sessionLeader (sid : Str)
  | unitsByPatterns (states patterns : List Str)
  | notifyAccess (unit : Str)
  | timeoutStart (unit : Str)
  | startUnit (unit : Str)
  | loaderShell (env : Env) (aux : Str)
  | execSystemdNotify (args : List Str)

/-- What the loader shell leaves behind; `status` is the exit status as displayed. -/
structure LoaderOutput where
  success : Bool
  status : Str
  stdout : Str
  stderr : Str

/-- A listing answers with unit names, a start timeout is in microseconds. -/
abbrev Query.Value : Query → Type
  | .fgVtText => Str
  | .sessionByVt _ => Option (Str × Str)
  | .sessionLeader _ => Nat
  | .unitsByPatterns _ _ => List Str
  | .notifyAccess _ => Str
  | .timeoutStart _ => Nat
  | .loaderShell _ _ => LoaderOutput
  | .startUnit _ | .execSystemdNotify _ => Unit

inductive Cmd where
  | systemdVars
  | beginGeneration (buf : Fin 8 → UInt8) (pre : Env)
  | appendCleanup (names : List Str)
  | setSystemdVars (vars : Env)
  | unsetSystemdVars (names : List Str)
  | endGeneration
  | readFile (f : File)
  | writeFile (f : File) (text : Str)
  | removeFile (f : File)
  | ask (q : Query)

abbrev Cmd.Value : Cmd → Type
  | .systemdVars => Env
  | .beginGeneration _ _ => Str
  | .readFile _ => Option Str
  | .ask q => q.Value
  | .appendCleanup _ | .setSystemdVars _ | .unsetSystemdVars _ | .endGeneration | .writeFile _ _
  | .removeFile _ => Unit

abbrev cmds : Sig := ⟨Cmd, fun c => Except Error c.Value⟩

/-- A session process, or part of one. -/
abbrev Task (α : Type) := ExceptT Error (Prog cmds) α

def Cmd.call (c : Cmd) : Task c.Value := Prog.op (S := cmds) c .ret

def ask (q : Query) : Task q.Value := (Cmd.ask q).call

/-- Run `t` and go on whatever comes of it. -/
def attempt {α β : Type} (t : Task α) (f : Except Error α → Task β) : Task β := Prog.bind (S := cmds) t f

/-- How the surroundings answer each question. -/
abbrev Oracle := (q : Query) → Except Error q.Value

/-- The program a step runs. -/
def Cmd.io (oracle : Oracle) : (c : Cmd) → Io c.Value
  | .systemdVars => Wsmr.systemdVars
  | .beginGeneration buf pre => Wsmr.beginGeneration buf pre
  | .appendCleanup names => Wsmr.appendCleanup names
  | .setSystemdVars vars => Wsmr.setSystemdVars vars
  | .unsetSystemdVars names => Wsmr.unsetSystemdVars names
  | .endGeneration => Wsmr.endGeneration
  | .readFile f => Wsmr.readFile f
  | .writeFile f text => Wsmr.writeFile f text
  | .removeFile f => Wsmr.removeFile f
  | .ask q => Prog.ret (oracle q)

/-! ## The pool -/

structure History where
  begun : Bool
  /-- Who set what. -/
  sets : List (Nat × Env)

structure Run where
  world : World
  history : History

def Run.start (w : World) : Run := ⟨w, ⟨false, []⟩⟩

/-- What the surroundings do with one step. -/
structure Choice where
  faults : List Fault
  oracle : Oracle

/-- A kill after `calls` calls of the step under way. -/
structure Kill where
  calls : Nat
  choice : Choice

section
variable (may : Prim → Bool)

/-- The bindings that one set puts into systemd's environment, when its first call is made. -/
def appliedVars (fs : List Fault) (vars : Env) : Env :=
  let o := Prim.setEnvironment (assignments vars)
  if o.refused then ∅
  else if may o && fs.headI.fails then vars.filter fun k _ => fs.headI.reaches k
  else vars

/-- The history after a step of process `i`. -/
def History.note (h : History) (i : Nat) (fs : List Fault) (c : Cmd) (ok : Bool) : History :=
  match c with
  | .beginGeneration _ _ => { h with begun := h.begun || ok }
  | .setSystemdVars vars => { h with sets := (i, appliedVars may fs vars) :: h.sets }
  | _ => h

def session : Effects.Machine cmds Run Choice Kill where
  step i x c s :=
    let r := runIo may (c.io x.oracle) x.faults s.world
    some (r.1, ⟨r.2, s.history.note may i x.faults c (r.1 matches .ok _)⟩)
  kill i x c s :=
    ⟨stopIo may x.calls (c.io x.choice.oracle) x.choice.faults s.world,
      if x.calls = 0 then s.history else s.history.note may i x.choice.faults c false⟩

end

/-- Processes `ps` start in `w` and take the steps of `es`. -/
def runTasks (may : Prim → Bool) (es : List (Event Choice Kill)) (w : World) (ps : List (Task Unit)) :
    Pool cmds (Except Error Unit) Run :=
  (session may).exec es ⟨Run.start w, ps.map some⟩

end Wsmr
