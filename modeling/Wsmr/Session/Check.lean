import Wsmr.Error
import Wsmr.Lib.Checks

/-!
# `check may-start` (`src/session/check.rs`)

The checks are a chain (`Lib/Checks.lean`): each is passed, or leaves a reason in the verdict and ends the chain
unless all reasons are wanted. What they ask is asked of `Probes`, in the original a trait; `SysProbes` answers with
the connection that an earlier probe has made.
-/

namespace Wsmr.Check

open Text Effects Prog

structure CheckOpts where
  noLogin : Bool
  /-- Allowed VTs; `[0]` disables all VT checks. -/
  vtnr : List Nat
  allowRemote : Bool
  /-- How long to wait for the system's `graphical.target`; 0 is not to. -/
  gstSeconds : Nat
  verbose : Bool

structure Verdict where
  errors : List Str
  visible : List Str
  silent : List Str
  deriving DecidableEq, Repr

def Verdict.mayStart (v : Verdict) : Bool := v.errors.isEmpty && v.visible.isEmpty && v.silent.isEmpty

/-! ## Probes -/

inductive Probe where
  | isRoot
  | dbusSessionPresent
  | parentCmdline
  | compositorActive
  | foregroundVt
  | sessionId
  | connectSystem
  | sessionVtnr (sessionId : Str)
  | sessionRemote (sessionId : Str)
  | graphicalTargetReached (secs : Nat)

abbrev Probe.Answer : Probe → Type
  | .isRoot | .dbusSessionPresent => Bool
  | .parentCmdline => Except Error Str
  | .compositorActive | .sessionRemote _ | .graphicalTargetReached _ => Except Error Bool
  | .foregroundVt | .sessionVtnr _ => Except Error Nat
  | .sessionId => Str
  | .connectSystem => Except Error Unit

abbrev probes : Sig := ⟨Probe, Probe.Answer⟩

/-- A part of the chain; what it throws is the verdict to return. -/
abbrev Checking (α : Type) := ExceptT Verdict (Prog probes) α

def probe (p : Probe) : Checking p.Answer := Prog.op (S := probes) p fun r => .ret (.ok r)

/-! ## Checks -/

def Verdict.pushError (v : Verdict) (msg : Str) : Verdict := { v with errors := v.errors ++ [msg] }
def Verdict.pushVisible (v : Verdict) (msg : Str) : Verdict := { v with visible := v.visible ++ [msg] }
def Verdict.pushSilent (v : Verdict) (msg : Str) : Verdict := { v with silent := v.silent ++ [msg] }

variable (opts : CheckOpts)

/-- `if !opts.verbose { return v; }` -/
def unlessVerbose (v : Verdict) : Checking Verdict := if !opts.verbose then throw v else pure v

def joinVts (vts : List Nat) : Str := List.intercalate ['|'] (vts.map decimal)

def checkRoot (v : Verdict) : Checking Verdict := do
  if ← probe .isRoot then throw (v.pushSilent "Running as root".toList) else return v

def checkSessionBus (v : Verdict) : Checking Verdict := do
  if ← probe .dbusSessionPresent then return v
  else throw (v.pushSilent "DBUS_SESSION_BUS_ADDRESS is not available".toList)

def checkLogin (v : Verdict) : Checking Verdict := do
  match ← probe .parentCmdline with
  | .ok cmd =>
    if cmd.head? ≠ some '-' then unlessVerbose opts (v.pushSilent "Not in login shell".toList) else return v
  | .error e => throw (v.pushError ("Could not determine parent process command: ".toList ++ e.toStr))

def checkActive (v : Verdict) : Checking Verdict := do
  match ← probe .compositorActive with
  | .ok true =>
    unlessVerbose opts
      (v.pushVisible "A compositor and/or graphical-session* targets are already active".toList)
  | .ok false => return v
  | .error e => throw (v.pushError ("Could not check for active compositor: ".toList ++ e.toStr))

def checkForegroundVt (v : Verdict) : Checking Verdict := do
  match ← probe .foregroundVt with
  | .ok fgvt =>
    if fgvt ∉ opts.vtnr then
      unlessVerbose opts (v.pushSilent ("Foreground VT (".toList ++ decimal fgvt ++
        ") is not among allowed VTs (".toList ++ joinVts opts.vtnr ++ ")".toList))
    else return v
  | .error _ => unlessVerbose opts (v.pushSilent "Could not determine foreground VT".toList)

def checkSystemBus (v : Verdict) : Checking Verdict := do
  match ← probe .connectSystem with
  | .ok () => return v
  | .error e => throw (v.pushError ("Could not connect to the system bus: ".toList ++ e.toStr))

def checkSessionVt (sessionId : Str) (v : Verdict) : Checking Verdict := do
  if sessionId = [] then unlessVerbose opts (v.pushSilent "XDG_SESSION_ID is not available".toList)
  else
    match ← probe (.sessionVtnr sessionId) with
    | .ok vt =>
      if vt = 0 then
        unlessVerbose opts (v.pushSilent ("Session ".toList ++ sessionId ++ " is not associated with a VT".toList))
      else if vt ∉ opts.vtnr then
        unlessVerbose opts (v.pushSilent ("Session VT (".toList ++ decimal vt ++
          ") is not among allowed VTs (".toList ++ joinVts opts.vtnr ++ ")".toList))
      else return v
    | .error e => throw (v.pushError ("Could not get session VTNr: ".toList ++ e.toStr))

def checkLocal (sessionId : Str) (v : Verdict) : Checking Verdict := do
  if sessionId = [] then unlessVerbose opts (v.pushSilent "XDG_SESSION_ID is not available".toList)
  else
    match ← probe (.sessionRemote sessionId) with
    | .ok true => unlessVerbose opts (v.pushSilent ("Session ".toList ++ sessionId ++ " is not local".toList))
    | .ok false => return v
    | .error e => throw (v.pushError ("Could not get session Remote attr: ".toList ++ e.toStr))

def checkGraphicalTarget (v : Verdict) : Checking Verdict := do
  match ← probe (.graphicalTargetReached opts.gstSeconds) with
  | .ok true => return v
  | .ok false => unlessVerbose opts (v.pushSilent "System has not reached graphical.target".toList)
  | .error e => throw (v.pushError ("Could not check if graphical.target is reached: ".toList ++ e.toStr))

def CheckOpts.vtChecks : Bool := opts.vtnr ≠ [0]

def CheckOpts.needSystem : Bool := opts.vtChecks || !opts.allowRemote || 0 < opts.gstSeconds

/-- `check_may_start_with`, in which nothing but a `return` ends the chain. -/
def checks (v : Verdict) : Checking Verdict := do
  let v ← checkRoot v
  let v ← checkSessionBus v
  let v ← onlyIf (!opts.noLogin) (checkLogin opts) v
  let v ← checkActive opts v
  let v ← onlyIf opts.vtChecks (checkForegroundVt opts) v
  let sessionId ← probe .sessionId
  let v ← onlyIf opts.needSystem checkSystemBus v
  let v ← onlyIf opts.vtChecks (checkSessionVt opts sessionId) v
  let v ← onlyIf (!opts.allowRemote) (checkLocal opts sessionId) v
  onlyIf (0 < opts.gstSeconds) (checkGraphicalTarget opts) v

def checkMayStartWith : Prog probes Verdict := Prog.bind (checks opts ⟨[], [], []⟩) fun r => .ret (settled r)

/-! ## The verdict -/

/-- Everything that `check may-start` is to find. -/
structure Allowed (a : (p : Probe) → p.Answer) : Prop where
  not_root : a .isRoot = false
  session_bus : a .dbusSessionPresent = true
  login : opts.noLogin = false → ∃ cmd, a .parentCmdline = .ok cmd ∧ cmd.head? = some '-'
  inactive : a .compositorActive = .ok false
  system_bus : opts.vtnr ≠ [0] ∨ opts.allowRemote = false ∨ 0 < opts.gstSeconds → a .connectSystem = .ok ()
  foreground_vt : opts.vtnr ≠ [0] → ∃ vt ∈ opts.vtnr, a .foregroundVt = .ok vt
  session_vt : opts.vtnr ≠ [0] →
    a .sessionId ≠ [] ∧ ∃ vt ∈ opts.vtnr, vt ≠ 0 ∧ a (.sessionVtnr (a .sessionId)) = .ok vt
  not_remote : opts.allowRemote = false → a .sessionId ≠ [] ∧ a (.sessionRemote (a .sessionId)) = .ok false
  graphical_target : 0 < opts.gstSeconds → a (.graphicalTargetReached opts.gstSeconds) = .ok true

def Verdict.Clean (v : Verdict) : Prop := v.mayStart = true

theorem not_clean_pushError (v : Verdict) (msg : Str) : ¬ (v.pushError msg).Clean := by
  simp [Verdict.Clean, Verdict.mayStart, Verdict.pushError]

theorem not_clean_pushVisible (v : Verdict) (msg : Str) : ¬ (v.pushVisible msg).Clean := by
  simp [Verdict.Clean, Verdict.mayStart, Verdict.pushVisible]

theorem not_clean_pushSilent (v : Verdict) (msg : Str) : ¬ (v.pushSilent msg).Clean := by
  simp [Verdict.Clean, Verdict.mayStart, Verdict.pushSilent]

section
variable {opts} {a : (p : Probe) → p.Answer} {P : Prop}

theorem decides_probe {p : Probe} {k : p.Answer → Verdict → Checking Verdict}
    (hk : Decides a Verdict.Clean P (k (a p))) : Decides a Verdict.Clean P fun v => probe p >>= fun r => k r v :=
  fun v => hk v

theorem decides_throw {f : Verdict → Verdict} (hP : ¬ P) (hf : ∀ v, ¬ (f v).Clean) :
    Decides a Verdict.Clean P fun v => (throw (f v) : Checking Verdict) :=
  decides_refuse hP fun v => ⟨f v, hf v, Or.inr rfl⟩

theorem decides_unlessVerbose {f : Verdict → Verdict} (hP : ¬ P) (hf : ∀ v, ¬ (f v).Clean) :
    Decides a Verdict.Clean P fun v => unlessVerbose opts (f v) := by
  refine decides_refuse hP fun v => ⟨f v, hf v, ?_⟩
  unfold unlessVerbose
  cases opts.verbose
  · exact Or.inr rfl
  · exact Or.inl rfl

theorem decides_checkRoot : Decides a Verdict.Clean (a .isRoot = false) checkRoot := by
  refine decides_probe ?_
  cases a .isRoot with
  | false => exact decides_pass rfl
  | true => exact decides_throw nofun fun v => not_clean_pushSilent v _

theorem decides_checkSessionBus : Decides a Verdict.Clean (a .dbusSessionPresent = true) checkSessionBus := by
  refine decides_probe ?_
  cases a .dbusSessionPresent with
  | false => exact decides_throw nofun fun v => not_clean_pushSilent v _
  | true => exact decides_pass rfl

theorem decides_checkLogin :
    Decides a Verdict.Clean (∃ cmd, a .parentCmdline = .ok cmd ∧ cmd.head? = some '-') (checkLogin opts) := by
  refine decides_probe ?_
  cases a .parentCmdline with
  | error e => exact decides_throw (by simp) fun v => not_clean_pushError v _
  | ok cmd =>
    by_cases hdash : cmd.head? = some '-'
    · simp only [hdash, ne_eq, not_true_eq_false, if_false]
      exact decides_pass ⟨cmd, rfl, hdash⟩
    · simp only [hdash, ne_eq, not_false_eq_true, if_true]
      exact decides_unlessVerbose (by simpa using hdash) fun v => not_clean_pushSilent v _

theorem decides_checkActive : Decides a Verdict.Clean (a .compositorActive = .ok false) (checkActive opts) := by
  refine decides_probe ?_
  match a .compositorActive with
  | .error e => exact decides_throw nofun fun v => not_clean_pushError v _
  | .ok true => exact decides_unlessVerbose nofun fun v => not_clean_pushVisible v _
  | .ok false => exact decides_pass rfl

theorem decides_checkForegroundVt :
    Decides a Verdict.Clean (∃ vt ∈ opts.vtnr, a .foregroundVt = .ok vt) (checkForegroundVt opts) := by
  refine decides_probe ?_
  cases a .foregroundVt with
  | error e => exact decides_unlessVerbose (by simp) fun v => not_clean_pushSilent v _
  | ok vt =>
    by_cases hvt : vt ∈ opts.vtnr
    · simp only [hvt, not_true_eq_false, if_false]
      exact decides_pass ⟨vt, hvt, rfl⟩
    · simp only [hvt, not_false_eq_true, if_true]
      exact decides_unlessVerbose (by simpa using hvt) fun v => not_clean_pushSilent v _

theorem decides_checkSystemBus : Decides a Verdict.Clean (a .connectSystem = .ok ()) checkSystemBus := by
  refine decides_probe ?_
  cases a .connectSystem with
  | error e => exact decides_throw nofun fun v => not_clean_pushError v _
  | ok u => exact decides_pass rfl

theorem decides_checkSessionVt {sessionId : Str} :
    Decides a Verdict.Clean (sessionId ≠ [] ∧ ∃ vt ∈ opts.vtnr, vt ≠ 0 ∧ a (.sessionVtnr sessionId) = .ok vt)
      (checkSessionVt opts sessionId) := by
  unfold checkSessionVt
  by_cases hid : sessionId = []
  · simp only [hid, if_true]
    exact decides_unlessVerbose (by simp) fun v => not_clean_pushSilent v _
  · simp only [hid, if_false]
    refine decides_probe ?_
    cases a (.sessionVtnr sessionId) with
    | error e => exact decides_throw (by simp) fun v => not_clean_pushError v _
    | ok vt =>
      by_cases hzero : vt = 0
      · simp only [hzero, if_true]
        exact decides_unlessVerbose (by simp) fun v => not_clean_pushSilent v _
      · simp only [hzero, if_false]
        by_cases hvt : vt ∈ opts.vtnr
        · simp only [hvt, not_true_eq_false, if_false]
          exact decides_pass ⟨hid, vt, hvt, hzero, rfl⟩
        · simp only [hvt, not_false_eq_true, if_true]
          refine decides_unlessVerbose ?_ fun v => not_clean_pushSilent v _
          rintro ⟨-, vt', hvt', -, h⟩
          exact hvt (Except.ok.inj h ▸ hvt')

theorem decides_checkLocal {sessionId : Str} :
    Decides a Verdict.Clean (sessionId ≠ [] ∧ a (.sessionRemote sessionId) = .ok false) (checkLocal opts sessionId) := by
  unfold checkLocal
  by_cases hid : sessionId = []
  · simp only [hid, if_true]
    exact decides_unlessVerbose (by simp) fun v => not_clean_pushSilent v _
  · simp only [hid, if_false]
    refine decides_probe ?_
    match a (.sessionRemote sessionId) with
    | .error e => exact decides_throw (by simp) fun v => not_clean_pushError v _
    | .ok true => exact decides_unlessVerbose (by simp) fun v => not_clean_pushSilent v _
    | .ok false => exact decides_pass ⟨hid, rfl⟩

theorem decides_checkGraphicalTarget :
    Decides a Verdict.Clean (a (.graphicalTargetReached opts.gstSeconds) = .ok true) (checkGraphicalTarget opts) := by
  refine decides_probe ?_
  match a (.graphicalTargetReached opts.gstSeconds) with
  | .error e => exact decides_throw nofun fun v => not_clean_pushError v _
  | .ok true => exact decides_pass rfl
  | .ok false => exact decides_unlessVerbose nofun fun v => not_clean_pushSilent v _

/-- **The chain** decides on everything at once. -/
theorem decides_checks : Decides a Verdict.Clean (Allowed opts a) (checks opts) := by
  refine decides_congr ?_ (decides_seq decides_checkRoot (decides_seq decides_checkSessionBus
    (decides_seq (decides_onlyIf decides_checkLogin) (decides_seq decides_checkActive
      (decides_seq (decides_onlyIf decides_checkForegroundVt) (decides_probe (decides_seq
        (decides_onlyIf decides_checkSystemBus) (decides_seq (decides_onlyIf decides_checkSessionVt)
          (decides_seq (decides_onlyIf decides_checkLocal) (decides_onlyIf decides_checkGraphicalTarget))))))))))
  have hvt : opts.vtChecks = true ↔ opts.vtnr ≠ [0] := by simp [CheckOpts.vtChecks]
  have hneed : opts.needSystem = true ↔ opts.vtnr ≠ [0] ∨ opts.allowRemote = false ∨ 0 < opts.gstSeconds := by
    simp [CheckOpts.needSystem, hvt, or_assoc]
  simp only [hvt, hneed, Bool.not_eq_true']
  exact ⟨fun ⟨h1, h2, h3, h4, h5, h6, h7, h8, h9⟩ => ⟨h1, h2, h3, h4, h6, h5, h7, h8, h9⟩,
    fun h => ⟨h.not_root, h.session_bus, h.login, h.inactive, h.foreground_vt, h.system_bus, h.session_vt,
      h.not_remote, h.graphical_target⟩⟩

end

/-! ## The system bus -/

/-- The probes that ask the system bus. -/
def Probe.needsSystem : Probe → Bool
  | .sessionVtnr _ | .sessionRemote _ | .graphicalTargetReached _ => true
  | _ => false

/-- The answer that tells of a connection. -/
def Probe.Connected : (p : Probe) → p.Answer → Prop
  | .connectSystem, r => r = .ok ()
  | _, _ => False

/-- A check that does not ask the system bus. -/
def Local (c : Checking Verdict) : Prop :=
  (c : Prog probes (Except Verdict Verdict)).Uses (fun p : Probe => ¬ p.needsSystem = true) fun _ => True

/-- The system bus is asked after it has been connected; `g`: it is. -/
abbrev SystemFirst (g : Prop) (c : Checking Verdict) : Prop :=
  (c : Prog probes (Except Verdict Verdict)).Guarded (fun p : Probe => p.needsSystem = true) Probe.Connected g

section
variable {opts} {v : Verdict}

theorem local_pure : Local (pure v) := trivial

theorem local_throw : Local (throw v) := trivial

theorem local_probe {p : Probe} {k : p.Answer → Checking Verdict} (hp : p.needsSystem = false)
    (hk : ∀ r, Local (k r)) : Local (probe p >>= k) :=
  ⟨Bool.eq_false_iff.1 hp, hk⟩

theorem local_ite {B : Prop} [Decidable B] {c d : Checking Verdict} (hc : Local c) (hd : Local d) :
    Local (if B then c else d) := by
  split
  · exact hc
  · exact hd

theorem local_unlessVerbose : Local (unlessVerbose opts v) := local_ite local_throw local_pure

theorem local_onlyIf {B : Prop} [Decidable B] {c : Verdict → Checking Verdict} (hc : Local (c v)) :
    Local (onlyIf B c v) := local_ite hc local_pure

theorem local_checkRoot : Local (checkRoot v) :=
  local_probe rfl fun _ => local_ite local_throw local_pure

theorem local_checkSessionBus : Local (checkSessionBus v) :=
  local_probe rfl fun _ => local_ite local_pure local_throw

theorem local_checkLogin : Local (checkLogin opts v) := by
  refine local_probe rfl fun r => ?_
  cases r with
  | error e => exact local_throw
  | ok cmd => exact local_ite local_unlessVerbose local_pure

theorem local_checkActive : Local (checkActive opts v) := by
  refine local_probe rfl fun r => ?_
  match r with
  | .error e => exact local_throw
  | .ok true => exact local_unlessVerbose
  | .ok false => exact local_pure

theorem local_checkForegroundVt : Local (checkForegroundVt opts v) := by
  refine local_probe rfl fun r => ?_
  cases r with
  | error e => exact local_unlessVerbose
  | ok vt => exact local_ite local_unlessVerbose local_pure

theorem systemFirst_bind {g : Prop} {c : Checking Verdict} {d : Verdict → Checking Verdict} (hc : Local c)
    (hd : ∀ v g, SystemFirst g (d v)) : SystemFirst g (c >>= d) := by
  rw [SystemFirst, ebind_eq]
  exact guarded_ebind hd hc

theorem systemFirst_probe {g : Prop} {p : Probe} {k : p.Answer → Checking Verdict} (hp : p.needsSystem = false)
    (hk : ∀ r, SystemFirst (g ∨ p.Connected r) (k r)) : SystemFirst g (probe p >>= k) :=
  ⟨fun h => absurd h (Bool.eq_false_iff.1 hp), hk⟩

/-- What comes after the connection, which is made when there is something to ask. -/
theorem systemFirst_system {g : Prop} {sessionId : Str} : SystemFirst g (do
    let v ← onlyIf opts.needSystem checkSystemBus v
    let v ← onlyIf opts.vtChecks (checkSessionVt opts sessionId) v
    let v ← onlyIf (!opts.allowRemote) (checkLocal opts sessionId) v
    onlyIf (0 < opts.gstSeconds) (checkGraphicalTarget opts) v) := by
  by_cases hneed : opts.needSystem = true
  · rw [onlyIf, if_pos hneed]
    refine ⟨nofun, fun r => ?_⟩
    cases r with
    | error e => exact trivial
    | ok u => exact guarded_of_granted (Or.inr rfl) _
  · rw [onlyIf, if_neg hneed]
    simp only [CheckOpts.needSystem, Bool.or_eq_true, not_or, decide_eq_true_eq] at hneed
    simp only [onlyIf, hneed, if_false]
    exact trivial

/-- **Before the connection** no check asks the system bus. -/
theorem systemFirst_checks : SystemFirst False (checks opts v) := by
  refine systemFirst_bind local_checkRoot fun v g => ?_
  refine systemFirst_bind local_checkSessionBus fun v g => ?_
  refine systemFirst_bind (local_onlyIf local_checkLogin) fun v g => ?_
  refine systemFirst_bind local_checkActive fun v g => ?_
  refine systemFirst_bind (local_onlyIf local_checkForegroundVt) fun v g => ?_
  exact systemFirst_probe rfl fun sessionId => systemFirst_system

theorem systemFirst_checkMayStartWith : (checkMayStartWith opts).Guarded (fun p : Probe => p.needsSystem = true)
    Probe.Connected False := guarded_bind_ret systemFirst_checks

end

/-! ## The real probes -/

/-- What the process, the kernel and the buses are at a call of a probe; `β` is the type of connections. -/
structure Outside (β : Type) where
  euid : Nat
  env : Str → Option Str
  parentCmdline : Except Error Str
  compositorActive : Except Error Bool
  fgVt : Except Error Nat
  connect : Except Error β
  vtnr : β → Str → Except Error Nat
  remote : β → Str → Except Error Bool
  waitForUnit : β → Str → List Str → Nat → Except Error Bool

instance {β : Type} : Inhabited (Outside β) :=
  ⟨⟨0, fun _ => none, .error .dbus, .error .dbus, .error .dbus, .error .dbus, fun _ _ => .error .dbus,
    fun _ _ => .error .dbus, fun _ _ _ _ => .error .dbus⟩⟩

structure SysProbes (β : Type) where
  sysbus : Option β
  /-- An `expect` has failed. -/
  panicked : Bool

namespace SysProbes
variable {β : Type}

def new : SysProbes β := ⟨none, false⟩

/-- `self.sysbus.borrow().as_ref().expect(..)`; after a panic the answer does not matter. -/
def withBus {α : Type} (f : β → Except Error α) (s : SysProbes β) : Except Error α × SysProbes β :=
  match s.sysbus with
  | some bus => (f bus, s)
  | none => (.error .dbus, { s with panicked := true })

def answer (w : Outside β) : (p : Probe) → SysProbes β → p.Answer × SysProbes β
  | .isRoot, s => (w.euid = 0, s)
  | .dbusSessionPresent, s => ((w.env "DBUS_SESSION_BUS_ADDRESS".toList).any (· ≠ []), s)
  | .parentCmdline, s => (w.parentCmdline, s)
  | .compositorActive, s => (w.compositorActive, s)
  | .foregroundVt, s => (w.fgVt, s)
  | .sessionId, s => ((w.env "XDG_SESSION_ID".toList).getD [], s)
  | .connectSystem, s =>
    match w.connect with
    | .ok bus => (.ok (), { s with sysbus := some bus })
    | .error e => (.error e, s)
  | .sessionVtnr sessionId, s => s.withBus fun bus => w.vtnr bus sessionId
  | .sessionRemote sessionId, s => s.withBus fun bus => w.remote bus sessionId
  | .graphicalTargetReached secs, s => s.withBus fun bus =>
    w.waitForUnit bus "graphical.target".toList ["active".toList, "activating".toList] secs

theorem withBus_of_some {α : Type} {f : β → Except Error α} {s : SysProbes β} (h : s.sysbus.isSome = true) :
    (s.withBus f).2 = s := by
  obtain ⟨bus, hbus⟩ := Option.isSome_iff_exists.1 h
  simp [withBus, hbus]

/-- A probe keeps the connection, and does not panic when it has the one it needs. -/
theorem answer_spec (w : Outside β) (p : Probe) (s : SysProbes β) (hs : s.panicked = false)
    (hbus : p.needsSystem = true → s.sysbus.isSome = true) : (answer w p s).2.panicked = false ∧
      (s.sysbus.isSome = true ∨ p.Connected (answer w p s).1 → (answer w p s).2.sysbus.isSome = true) := by
  cases p with
  | sessionVtnr sessionId =>
    simp only [answer, withBus_of_some (hbus rfl)]
    exact ⟨hs, fun _ => hbus rfl⟩
  | sessionRemote sessionId =>
    simp only [answer, withBus_of_some (hbus rfl)]
    exact ⟨hs, fun _ => hbus rfl⟩
  | graphicalTargetReached secs =>
    simp only [answer, withBus_of_some (hbus rfl)]
    exact ⟨hs, fun _ => hbus rfl⟩
  | connectSystem =>
    simp only [answer]
    cases w.connect with
    | ok bus => exact ⟨hs, fun _ => rfl⟩
    | error e => exact ⟨hs, fun h => h.resolve_right nofun⟩
  | _ => exact ⟨hs, fun h => h.resolve_right id⟩

end SysProbes

/-! ## May-start -/

instance : Inhabited ((p : Probe) → p.Answer) := ⟨fun
  | .isRoot | .dbusSessionPresent => false
  | .parentCmdline | .compositorActive | .foregroundVt | .connectSystem | .sessionVtnr _ | .sessionRemote _
  | .graphicalTargetReached _ => .error .dbus
  | .sessionId => []⟩

theorem mayStart_iff_allowed {a : (p : Probe) → p.Answer} :
    ((checkMayStartWith opts).eval a).mayStart = true ↔ Allowed opts a := by
  unfold checkMayStartWith
  rw [eval_bind]
  exact good_iff_of_decides decides_checks rfl

/-- **`check may-start`**, with `verbose` and without: the verdict on probes that answer alike whenever they are
called, and, however they answer, that the system bus is asked only after it has been connected. -/
theorem may_start : (∀ (a : (p : Probe) → p.Answer) (verbose : Bool),
      ((checkMayStartWith { opts with verbose := verbose }).eval a).mayStart = true ↔ Allowed opts a) ∧
    (∀ fs before after p r, (checkMayStartWith opts).calls fs = before ++ ⟨p, r⟩ :: after → p.needsSystem = true →
      ⟨.connectSystem, .ok ()⟩ ∈ before) ∧
    ∀ (β : Type) (ws : List (Outside β)) n,
      ((checkMayStartWith opts).stop SysProbes.answer n ws SysProbes.new).panicked = false := by
  refine ⟨fun a verbose => ?_, ?_, ?_⟩
  · rw [mayStart_iff_allowed]
    exact ⟨fun ⟨h1, h2, h3, h4, h5, h6, h7, h8, h9⟩ => ⟨h1, h2, h3, h4, h5, h6, h7, h8, h9⟩,
      fun ⟨h1, h2, h3, h4, h5, h6, h7, h8, h9⟩ => ⟨h1, h2, h3, h4, h5, h6, h7, h8, h9⟩⟩
  · intro fs before after p r hcalls hp
    obtain ⟨⟨q, r'⟩, hmem, hq⟩ := grantedFirst_calls systemFirst_checkMayStartWith fs before ⟨p, r⟩ after hcalls hp
    cases q with
    | connectSystem =>
      obtain rfl : r' = .ok () := hq
      exact hmem
    | _ => exact hq.elim
  · intro β ws n
    have hsafe := wpc_of_guarded (C := fun s => s.panicked = false) (G := fun s => s.sysbus.isSome = true)
      (fun w p s => @SysProbes.answer_spec β w p s) (@systemFirst_checkMayStartWith opts) False.elim
      (s := SysProbes.new) rfl
    exact stop_of_wpc n ws hsafe

/-- The answers to a user who has logged in on the first VT. -/
def firstVtAnswers : (p : Probe) → p.Answer
  | .isRoot => false
  | .dbusSessionPresent => true
  | .parentCmdline => .ok "-bash".toList
  | .compositorActive | .sessionRemote _ => .ok false
  | .foregroundVt | .sessionVtnr _ => .ok 1
  | .sessionId => ['1']
  | .connectSystem => .ok ()
  | .graphicalTargetReached _ => .ok true

theorem may_start_first_vt : ((checkMayStartWith ⟨false, [1], false, 0, true⟩).eval firstVtAnswers).mayStart = true :=
  ((may_start ⟨false, [1], false, 0, false⟩).1 firstVtAnswers true).2
    ⟨rfl, rfl, fun _ => ⟨_, rfl, by decide⟩, rfl, fun _ => rfl, fun _ => ⟨1, by simp, rfl⟩,
      fun _ => ⟨by decide, 1, by simp, by decide, rfl⟩, fun _ => ⟨by decide, rfl⟩, nofun⟩

end Wsmr.Check
