import Wsmr.Comp
import Wsmr.Env.Dump
import Wsmr.Session.Process

/-!
# `prepare-env` (`src/session/prepare.rs`)
-/

namespace Wsmr

open Text Std Effects

/-! ## The loader's input -/

/-- Minimal POSIX shell quoting. -/
def shQuote (s : Str) : Str :=
  if s = [] then "''".toList
  else if s.all fun c => isAsciiAlphanumeric c || "@%+=:,./-_".toList.contains c then s
  else '\'' :: s.flatMap (fun c => if c = '\'' then "'\"'\"'".toList else [c]) ++ ['\'']

/-- The file `prepare-env.sh` sources. -/
def auxVars (comp : CompGlobals) (mark : Str) (haveLogin : Bool) : Str :=
  let lines : List Str := [
    "__SELF_NAME__=wsmr".toList,
    "__WM_ID__=".toList ++ shQuote comp.id,
    "__WM_ID_UNIT_STRING__=".toList ++ shQuote comp.idUnitString,
    "__WM_BIN_ID__=".toList ++ shQuote comp.binId,
    "__WM_DESKTOP_NAMES__=".toList ++ shQuote (List.intercalate [':'] comp.desktopNames),
    "__WM_FIRST_DESKTOP_NAME__=".toList ++ shQuote (comp.desktopNames.head?.getD []),
    "__WM_DESKTOP_NAMES_EXCLUSIVE__=false".toList,
    "__LOAD_PROFILE__=".toList ++ (if haveLogin then "true".toList else "false".toList),
    "__OIFS__=\" \t\n\"".toList,
    "__RANDOM_MARK__=".toList ++ mark,
    "IN_UWSM_ENV_PRELOADER=true".toList]
  List.intercalate ['\n'] lines ++ ['\n']

/-- Run `prepare-env.sh` with `envMerged`; its output is parsed before its exit status is looked at. -/
def runLoader (comp : CompGlobals) (envMerged : Env) (mark : Str) (haveLogin : Bool) : Task Env := do
  let aux := auxVars comp mark haveLogin
  (Cmd.writeFile (.vars mark) aux).call
  let output ← ask (.loaderShell envMerged aux)
  (Cmd.removeFile (.vars mark)).call
  match parseShellDump output.stdout mark with
  | .error e => throw e
  | .ok parsed =>
    if output.success then return parsed.env
    else throw (.resolve ("env preloader shell exited with ".toList ++ output.status ++ ": ".toList ++
      trim output.stderr))

/-! ## The login session -/

def nonempty (env : Env) (k : Str) : Bool := env[k]?.any (· ≠ [])

/-- `read_fg_vt` -/
def readFgVt : Task Nat := do
  let raw ← ask .fgVtText
  match (stripPrefix "tty".toList (trim raw)).bind (parseUnsigned 10 0x100000000) with
  | some v => return v
  | none => throw (.resolve ("unexpected foreground VT: \"".toList ++ trim raw ++ "\"".toList))

/-- The `session_specific` variables, for the units' `EnvironmentFile=`. -/
def sessionConf (env : Env) : Str :=
  serializeEnv (env.filter fun k v => sessionSpecific.contains k && v ≠ []) .newline

def deduceSessionWith (envLogin : Env) (vt : Nat) : Task Env := do
  let found ← ask (.sessionByVt vt)
  match found with
  | none => throw (.resolve ("could not determine login session on VT ".toList ++ decimal vt))
  | some (sid, seat) => do
    let env := (envLogin.insert "XDG_SESSION_ID".toList sid).insert "XDG_SEAT".toList seat
    (Cmd.writeFile .sessionConf (sessionConf env)).call
    return env

/-- Fill in the login session's variables if they are missing. -/
def deduceSession (envLogin : Env) : Task Env :=
  if nonempty envLogin "XDG_SEAT".toList && nonempty envLogin "XDG_SESSION_ID".toList then return envLogin
  else match (envLogin["XDG_VTNR".toList]?).bind (parseUnsigned 10 0x100000000) with
    | some vt => deduceSessionWith envLogin vt
    | none => do
      let vt ← readFgVt
      deduceSessionWith (envLogin.insert "XDG_VTNR".toList (decimal vt)) vt

/-- Best effort: bind the session to its leader when nothing binds it yet. -/
def ensureBindpid (env : Env) : Task Unit :=
  attempt (ask (.unitsByPatterns ["active".toList, "activating".toList]
      ["wayland-session-bindpid@*.service".toList])) fun
    | .error _ => return ()
    | .ok units =>
      if !units.isEmpty then return ()
      else match env["XDG_SESSION_ID".toList]? with
        | none => return ()
        | some sid =>
          if sid = [] then return ()
          else attempt (ask (.sessionLeader sid)) fun
            | .error _ => return ()
            | .ok leader =>
              attempt (ask (.startUnit
                ("wayland-session-bindpid@".toList ++ decimal leader ++ ".service".toList))) fun _ => return ()

/-! ## `prepare_env` -/

/-- What happens to the environment once the loader's result is known. -/
def applyChanges (envPre envPost : Env) : Task Unit := do
  let changes := computeChanges envPre envPost
  (Cmd.appendCleanup changes.cleanup.toList).call
  (if changes.set.isEmpty then return () else (Cmd.setSystemdVars changes.set).call : Task Unit)
  if changes.unset.isEmpty then return () else (Cmd.unsetSystemdVars changes.unset.toList).call

/-- From the snapshot on. -/
def prepareActivation (comp : CompGlobals) (id mark : Fin 8 → UInt8) (envLogin : Env) (haveLogin : Bool) :
    Task Unit := do
  let envPre ← Cmd.systemdVars.call
  let _ ← (Cmd.beginGeneration id envPre).call
  let envMerged := envPre.insertMany envLogin.toList
  let envPost ← runLoader comp envMerged (randomHexId mark) haveLogin
  applyChanges envPre envPost

/-- `id` and `mark` are the random bytes of the generation id and of the dump mark. -/
def prepareEnv (comp : CompGlobals) (id mark : Fin 8 → UInt8) : Task Unit := do
  let text ← (Cmd.readFile .envLogin).call
  let login := loadEnv text
  (Cmd.removeFile .envLogin).call
  let envLogin ← deduceSession login
  ensureBindpid envLogin
  prepareActivation comp id mark envLogin (!login.isEmpty)

end Wsmr
