import Wsmr.App.Naming
import Wsmr.Comp.Resolve
import Wsmr.Varnames
import Mathlib.Logic.Function.Iterate

/-!
# Launching applications (`src/app/launch.rs`)

`resolve` gives the `systemd-run` command lines of a request. `run` starts them itself; the app-daemon
writes them down for a shell.
-/

namespace Wsmr

open Text

inductive UnitType where
  | scope
  | service
  deriving DecidableEq, Repr

def UnitType.asStr : UnitType → Str
  | .scope => "scope".toList
  | .service => "service".toList

inductive Silence where
  | out
  | err
  | both
  deriving DecidableEq, Repr

structure AppOpts where
  cmdline : List Str
  slice : Str
  unitType : UnitType
  terminal : Bool
  appName : Option Str
  unitName : Option Str
  description : Option Str
  unitProperties : List Str
  silent : Option Silence

structure LaunchSpec where
  cmdline : List Str
  slice : Str
  unitType : UnitType
  unitName : Str
  description : Str
  properties : List Str
  silent : Option Silence
  workdir : Option Str
  sessionSetenv : List (Str × Str)

def silencing : Option Silence → List Str
  | some .out => ["--property=StandardOutput=null".toList]
  | some .err => ["--property=StandardError=null".toList]
  | some .both => ["--property=StandardOutput=null".toList, "--property=StandardError=null".toList]
  | none => []

def buildArgv (spec : LaunchSpec) : List Str :=
  ["systemd-run".toList, "--user".toList] ++
    (match spec.unitType with
      | .scope => ["--scope".toList]
      | .service =>
        ["--property=Type=exec".toList, "--property=ExitType=cgroup".toList] ++
          (spec.sessionSetenv.map fun p => "--setenv=".toList ++ p.1 ++ "=".toList ++ p.2) ++ silencing spec.silent) ++
    (spec.properties.map fun p => "--property=".toList ++ p) ++
    ["--slice=".toList ++ spec.slice, "--unit=".toList ++ spec.unitName,
      "--description=".toList ++ spec.description, "--quiet".toList, "--collect".toList,
      match spec.workdir with
      | some d => "--working-directory=".toList ++ d
      | none => "--same-dir".toList,
      "--".toList] ++ spec.cmdline

/-! ## Targets -/

structure Resolved where
  cmdlines : List (List Str)
  appName : Option Str
  description : Option Str
  workdir : Option Str
  properties : List Str
  wantTerminal : Bool

/-- `trim_end_matches(".desktop")`; there are fewer of them than characters. -/
def trimDesktop (s : Str) : Str := (fun t => (stripSuffix ".desktop".toList t).getD t)^[s.length] s

def joinDashed (name generic : Str) : Option Str :=
  let joined := List.intercalate " - ".toList ([name, generic].filter (· ≠ []))
  if joined = [] then none else some joined

def entryDescription (host : Host) (entry : DesktopEntry) (action : Option Str) : Option Str :=
  joinDashed ((entry.getLocalized host "Name".toList action).getD [])
    ((entry.getLocalized host "GenericName".toList none).getD [])

def desktopEntryEnvDescription (host : Host) : Option Str :=
  let pick (a b : Str) := ((host.nonEmptyVar a).orElse fun _ => host.nonEmptyVar b).getD []
  joinDashed (pick "DESKTOP_ENTRY_NAME_L".toList "DESKTOP_ENTRY_NAME".toList)
    (pick "DESKTOP_ENTRY_GENERICNAME_L".toList "DESKTOP_ENTRY_GENERICNAME".toList)

/-- `load_entry` -/
def loadApplication (host : Host) (main : MainArg) (entryId : Str) : Except Error DesktopEntry :=
  match main.path with
  | some p => readEntry host p
  | none => do
    match ← findEntry host "applications".toList entryId with
    | some e => return e
    | none => throw (.resolve ("desktop entry not found: ".toList ++ entryId))

/-- The part of `resolve_target` about an entry. -/
def resolveEntryTarget (host : Host) (opts : AppOpts) (main : MainArg) (entryId : Str) : Except Error Resolved := do
  let entry ← loadApplication host main entryId
  entry.checkBasic host main.entryAction
  let exec ← entry.exec main.entryAction
  let ctx : EntryCtx :=
    ⟨(entry.getLocalized host "Name".toList none).getD [], (entry.get "Icon".toList none).getD [], entry.filename⟩
  let gen ← genEntryArgs exec (opts.cmdline.drop 1) ctx
  return {
    cmdlines := gen.cmdlines
    appName := opts.appName.orElse fun _ => some (trimDesktop entryId)
    description := opts.description.orElse fun _ => entryDescription host entry main.entryAction
    workdir := entry.path.filter fun d => (host.dir d).isSome
    properties := opts.unitProperties ++ ["SourcePath=".toList ++ entry.filename]
    wantTerminal := opts.terminal || entry.terminal }

/-- The part about an executable, which takes hints from `DESKTOP_ENTRY_*`. -/
def resolveCommandTarget (host : Host) (opts : AppOpts) (arg0 : Str) : Except Error Resolved := do
  if (host.which arg0).isNone then throw (.resolve ("command not found: ".toList ++ arg0))
  return {
    cmdlines := [opts.cmdline]
    appName := opts.appName.orElse fun _ => (host.nonEmptyVar "DESKTOP_ENTRY_ID".toList).map trimDesktop
    description := opts.description.orElse fun _ => desktopEntryEnvDescription host
    workdir := none
    properties := opts.unitProperties ++
      ((host.nonEmptyVar "DESKTOP_ENTRY_PATH".toList).map fun p => "SourcePath=".toList ++ p).toList
    wantTerminal := opts.terminal }

def resolveTarget (host : Host) (opts : AppOpts) : Except Error Resolved :=
  match opts.cmdline.head? with
  | none =>
    -- `app -T` launches the terminal itself
    if opts.terminal then
      .ok ⟨[[]], opts.appName.orElse fun _ => some "terminal".toList, opts.description, none, opts.unitProperties, true⟩
    else .error (.invalidArg "no command given".toList)
  | some arg0 => do
    let main ← MainArg.parse host arg0
    match main.entryId with
    | some entryId => resolveEntryTarget host opts main entryId
    | none => resolveCommandTarget host opts arg0

/-! ## Units -/

def cmdName (cmd : List Str) : Str :=
  match cmd.head? with
  | some s => fileBasename s
  | none => "app".toList

def firstDesktop (host : Host) : Str :=
  (((host.env "XDG_CURRENT_DESKTOP".toList).bind fun s => (s.splitOn ':').head?).filter (· ≠ [])).getD "wsmr".toList

def sessionSpecificEnv (host : Host) : List (Str × Str) :=
  sessionSpecific.filterMap fun k => (host.nonEmptyVar k).map fun v => (k, v)

def resolveSlice (s : Str) : Except Error Str :=
  if s = "a".toList then .ok "app-graphical.slice".toList
  else if s = "b".toList then .ok "background-graphical.slice".toList
  else if s = "s".toList then .ok "session-graphical.slice".toList
  else if ".slice".toList <:+ s then .ok s
  else .error (.invalidArg ("invalid slice: ".toList ++ debugStr s))

def resolveUnitName (opts : AppOpts) (desktop : Str) (appName : Option Str) (cmd : List Str) (hex : Str) :
    Except Error Str :=
  match opts.unitName with
  | some u =>
    if ¬ ('.' :: opts.unitType.asStr <:+ u) then
      .error (.invalidArg ("unit name must end with .".toList ++ opts.unitType.asStr))
    else if (utf8 u).length > 255 then .error (.invalidArg "unit name too long (> 255)".toList)
    else .ok u
  | none => .ok (autoUnitName opts.unitType.asStr desktop (appName.getD (cmdName cmd)) hex)

def finalDescription (desc appName : Option Str) (cmd : List Str) : Str :=
  (desc.orElse fun _ => appName).getD (cmdName cmd)

/-- `TermOpts` without `hold`, which no launch sets. -/
structure TermOpts where
  appId : Option Str
  title : Option Str
  dir : Option Str

/-- In a terminal, if one is wanted; it comes with its command and the argument before another command. -/
def inTerminal (terminal : TermOpts → Except Error (List Str × List Str)) (r : Resolved) :
    Except Error (List (List Str)) :=
  if r.wantTerminal then
    (terminal ⟨r.appName, r.description, r.workdir⟩).map fun t =>
      r.cmdlines.map fun c => if c = [] then t.1 else t.1 ++ t.2 ++ c
  else .ok r.cmdlines

/-- The name of the unit of a command; `multi` when it is not the only one. -/
def appUnitName (host : Host) (opts : AppOpts) (r : Resolved) (multi : Bool) (cmd : List Str) (hex : Str) :
    Except Error Str :=
  if multi then .ok (autoUnitName opts.unitType.asStr (firstDesktop host) (r.appName.getD (cmdName cmd)) hex)
  else resolveUnitName opts (firstDesktop host) r.appName cmd hex

def launchSpec (host : Host) (opts : AppOpts) (r : Resolved) (slice : Str) (cmd : List Str) (unitName : Str) :
    LaunchSpec where
  cmdline := cmd
  slice := slice
  unitType := opts.unitType
  unitName := unitName
  description := finalDescription r.description r.appName cmd
  properties := r.properties
  silent := opts.silent
  workdir := r.workdir
  sessionSetenv := if opts.unitType = .service then sessionSpecificEnv host else []

/-- `resolve`; `terminal` is `resolve_terminal`, and the `i`-th unit is named with the random suffix `hex i`. -/
def resolveApp (host : Host) (terminal : TermOpts → Except Error (List Str × List Str)) (hex : Nat → Str)
    (opts : AppOpts) : Except Error (List (List Str)) := do
  if let some p := opts.unitProperties.find? fun p => !p.contains '=' then
    throw (.invalidArg ("expected KEY=VALUE unit property, got: ".toList ++ debugStr p))
  let r ← resolveTarget host opts
  let cmdlines ← inTerminal terminal r
  let slice ← resolveSlice opts.slice
  cmdlines.zipIdx.mapM fun c => do
    let unitName ← appUnitName host opts r (cmdlines.length > 1) c.1 (hex c.2)
    return buildArgv (launchSpec host opts r slice c.1 unitName)

/-! ## Effects -/

/-- A command that is started, and which of its outputs are redirected to null. -/
structure Started where
  argv : List Str
  stdoutNull : Bool
  stderrNull : Bool
  deriving DecidableEq, Repr

/-- What a launch does; `waited` when none of the commands is left alone. -/
structure Effect where
  started : List Started
  waited : Bool
  deriving DecidableEq, Repr

/-- `configure`; services are silenced by properties. -/
def configure (argv : List Str) (unitType : UnitType) (silent : Option Silence) : Started :=
  match unitType with
  | .service => ⟨argv, false, false⟩
  | .scope => ⟨argv, silent = some .out || silent = some .both, silent = some .err || silent = some .both⟩

/-- `run`; a single command takes the place of the process, and several are all waited for. -/
def launch (host : Host) (terminal : TermOpts → Except Error (List Str × List Str)) (hex : Nat → Str)
    (opts : AppOpts) : Except Error Effect := do
  let argvs ← resolveApp host terminal hex opts
  return ⟨argvs.map fun argv => configure argv opts.unitType opts.silent, true⟩

/-- Redirections are a matter of scopes. -/
theorem configure_eq_iff {argv : List Str} {unitType : UnitType} {silent : Option Silence} :
    configure argv unitType silent = ⟨argv, false, false⟩ ↔ unitType = .service ∨ silent = none := by
  cases unitType with
  | service => simp [configure]
  | scope =>
    cases silent with
    | none => simp [configure]
    | some s => cases s <;> simp [configure]

/-- The results of a loop that goes through. -/
theorem of_mapM {ε α β : Type} {f : α → Except ε β} : ∀ {xs : List α} {ys : List β}, xs.mapM f = .ok ys →
    ys.length = xs.length ∧ ∀ y ∈ ys, ∃ x ∈ xs, f x = .ok y
  | [], ys, h => by
    rw [List.mapM_nil] at h
    obtain rfl := Except.ok.inj h
    exact ⟨rfl, by simp⟩
  | x :: xs, ys, h => by
    rw [List.mapM_cons] at h
    cases hx : f x with
    | error e => rw [hx] at h; cases h
    | ok y =>
      rw [hx] at h
      cases hxs : xs.mapM f with
      | error e => simp only [hxs] at h; cases h
      | ok zs =>
        simp only [hxs] at h
        obtain rfl := Except.ok.inj h
        obtain ⟨hlen, hmem⟩ := of_mapM hxs
        refine ⟨congrArg (· + 1) hlen, List.forall_mem_cons.2 ⟨⟨x, List.mem_cons_self, hx⟩, fun z hz => ?_⟩⟩
        obtain ⟨w, hw, hfw⟩ := hmem z hz
        exact ⟨w, List.mem_cons_of_mem _ hw, hfw⟩

section
variable {host : Host} {opts : AppOpts} {r : Resolved}

theorem cmdlines_of_entry {main : MainArg} {entryId : Str} (h : resolveEntryTarget host opts main entryId = .ok r) :
    r.cmdlines ≠ [] := by
  unfold resolveEntryTarget at h
  simp only [bind, Except.bind, pure, Except.pure] at h
  split at h
  · cases h
  split at h
  · cases h
  split at h
  · cases h
  split at h
  · cases h
  · rename_i gen hgen
    obtain rfl := Except.ok.inj h
    exact cmdlines_genEntryArgs hgen

theorem cmdlines_ne_nil (h : resolveTarget host opts = .ok r) : r.cmdlines ≠ [] := by
  unfold resolveTarget at h
  split at h
  · split at h
    · obtain rfl := Except.ok.inj h
      exact List.cons_ne_nil _ _
    · cases h
  · rename_i arg0 harg0
    cases hparse : MainArg.parse host arg0 with
    | error e => rw [hparse] at h; cases h
    | ok main =>
      rw [hparse] at h
      change (match main.entryId with | some _ => _ | none => _) = _ at h
      split at h
      · exact cmdlines_of_entry h
      · unfold resolveCommandTarget at h
        simp only [bind, Except.bind, pure, Except.pure, throw, throwThe, MonadExceptOf.throw] at h
        split at h
        · cases h
        · obtain rfl := Except.ok.inj h
          exact List.cons_ne_nil _ _

theorem cmdlines_inTerminal {terminal : TermOpts → Except Error (List Str × List Str)} {cmdlines : List (List Str)}
    (hr : r.cmdlines ≠ []) (h : inTerminal terminal r = .ok cmdlines) : cmdlines ≠ [] := by
  unfold inTerminal at h
  split at h
  · cases hterm : terminal ⟨r.appName, r.description, r.workdir⟩ with
    | error e => rw [hterm] at h; cases h
    | ok t =>
      rw [hterm] at h
      obtain rfl := Except.ok.inj h
      simpa using hr
  · exact Except.ok.inj h ▸ hr

/-- **What is resolved**: at least one command, and all of them `systemd-run`. -/
theorem resolveApp_ok {terminal : TermOpts → Except Error (List Str × List Str)} {hex : Nat → Str}
    {argvs : List (List Str)} (h : resolveApp host terminal hex opts = .ok argvs) :
    argvs ≠ [] ∧ ∀ argv ∈ argvs, ∃ args, argv = "systemd-run".toList :: args := by
  unfold resolveApp at h
  simp only [bind, Except.bind, pure, Except.pure, throw, throwThe, MonadExceptOf.throw] at h
  split at h
  · cases h
  split at h
  · cases h
  rename_i r hr
  split at h
  · cases h
  rename_i cmdlines hterm
  split at h
  · cases h
  obtain ⟨hlen, hall⟩ := of_mapM h
  have hne := cmdlines_inTerminal (cmdlines_ne_nil hr) hterm
  refine ⟨fun hnil => ?_, fun argv hargv => ?_⟩
  · rw [hnil, List.length_zipIdx, List.length_nil] at hlen
    exact hne (List.length_eq_zero_iff.1 hlen.symm)
  · obtain ⟨c, -, hunit⟩ := hall argv hargv
    split at hunit
    · cases hunit
    · exact ⟨_, (Except.ok.inj hunit).symm⟩

end

end Wsmr
