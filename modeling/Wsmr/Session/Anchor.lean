import Wsmr.Lib.Text

/-!
# The session anchor (`libexec/signal-handler.sh`)

`start` becomes a shell with this script, which starts the session with `systemctl start --wait` in the background,
waits for it, and ends with its status. A signal makes it ask for the stop of the session once, and wait again. The
shell, its child and whoever sends signals take their steps in any order; a trap is run between two commands, or
when it interrupts `wait`, as POSIX has it.

The session is asked to stop at most once, and the script does not end before the session has, unless it was
interrupted before it had the child's PID (`anchor_runs`).
-/

namespace Wsmr.Anchor

open Text

inductive Signal where
  | term
  | hup
  | int
  deriving DecidableEq, Repr

def Signal.name : Signal → Str
  | .term => "TERM".toList
  | .hup => "HUP".toList
  | .int => "INT".toList

def Signal.number : Signal → Nat
  | .term => 15
  | .hup => 1
  | .int => 2

/-- The next command; `waiting` and on are `finish`. -/
inductive Place where
  | begin
  | trapping (sg : Signal)
  | starting
  | background
  | forking
  /-- `STARTPID=$!` -/
  | naming
  | forked
  | waiting
  | waited (status : Nat)
  | telling (status : Nat)
  | exiting (status : Nat)
  /-- `stop`, from its first command on. -/
  | ignoring (sg : Signal)
  | announcing (sg : Signal)
  | stopping
  | exited (status : Nat)
  | killed (sg : Signal)
  deriving DecidableEq, Repr

/-- The background process. -/
inductive Child where
  /-- Its own `trap ''` is still to come. -/
  | fresh
  | running
  | ended (status : Nat)
  deriving DecidableEq, Repr

/-- What the script finds. -/
structure Setting where
  args : List Str
  /-- `UWSM_SH_NO_STDOUT` is set. -/
  noStdout : Bool
  termSessionType : Str
  termProgram : Str
  pid : Nat
  /-- What `wait` returns for a process it has waited for already (`true`), and for no PID at all. -/
  unwaitable : Bool → Nat

structure Shell where
  place : Place
  /-- Signals with a trap. -/
  trapped : List Signal
  /-- All of them are ignored. -/
  deaf : Bool
  pending : List Signal
  child : Option Child
  /-- `STARTPID` is set. -/
  named : Bool
  /-- The child has been waited for. -/
  reaped : Bool
  /-- How often `systemctl stop` was started. -/
  stops : Nat
  /-- What went past the journal, to the descriptors 3 and 4. -/
  out : List Str
  err : List Str
  /-- Where the script was interrupted first; kept for the statements only. -/
  interrupted : Option Place

def Shell.start : Shell := ⟨.begin, [], false, [], none, false, false, 0, [], [], none⟩

inductive Act where
  /-- A signal for the shell, or for its whole process group. -/
  | signal (sg : Signal) (group : Bool)
  | trap
  | command
  | childDeaf
  | childEnds (status : Nat)
  deriving DecidableEq, Repr

variable (c : Setting)

def Shell.printfOut (s : Shell) (text : Str) : Shell := if c.noStdout then s else { s with out := s.out ++ [text] }

def Shell.printfErr (s : Shell) (text : Str) : Shell := { s with err := s.err ++ [text] }

/-- The escape sequence for kmscon. -/
def request (s : Shell) (what : Str) : Shell :=
  if c.termSessionType = "kms".toList then
    let t := s.printfOut c ("Requesting kmscon ".toList ++ (if what = "Background".toList then "background." else
      "foreground.").toList)
    let escape := if c.termProgram = "tmux".toList then
        "\x1bPtmux;\x1b\x1b]set".toList ++ what ++ "\x07\x1b\\".toList
      else "\x1b]set".toList ++ what ++ "\x07".toList
    { t with out := t.out ++ [escape] }
  else s

def exitLine (s : Shell) (status : Nat) : Str :=
  "PID ".toList ++ (if s.named then decimal c.pid else []) ++ " exited with RC ".toList ++ decimal status

def unit : Str := c.args.headD []

/-- What `wait "${STARTPID}"` gives; `none` while the child is not over. -/
def Shell.wait (s : Shell) : Option Nat :=
  if !s.named then some (c.unwaitable false)
  else if s.reaped then some (c.unwaitable true)
  else match s.child with
    | some (.ended status) => some status
    | _ => none

/-- One command of the script. -/
def Shell.execute (s : Shell) : Option Shell :=
  match s.place with
  | .begin =>
    if c.args.length ≠ 1 then some { s.printfErr "Designed to be run by uwsm! Exiting.".toList with place := .exited 1 }
    else some { s with place := .trapping .term }
  | .trapping .term => some { s with trapped := .term :: s.trapped, place := .trapping .hup }
  | .trapping .hup => some { s with trapped := .hup :: s.trapped, place := .trapping .int }
  | .trapping .int => some { s with trapped := .int :: s.trapped, place := .starting }
  | .starting => some { s.printfOut c ("Starting ".toList ++ unit c ++ "...".toList) with place := .background }
  | .background => some { request c s "Background".toList with place := .forking }
  | .forking => some { s with child := some .fresh, place := .naming }
  | .naming => some { s with named := true, place := .forked }
  | .forked =>
    some { s.printfOut c ("Forked systemctl, PID ".toList ++ decimal c.pid ++ ".".toList) with place := .waiting }
  | .waiting => (s.wait c).map fun status => { s with reaped := s.named, place := .waited status }
  | .waited status => some { request c s "Foreground".toList with place := .telling status }
  | .telling status =>
    some { (if status = 0 then s.printfOut c (exitLine c s status) else s.printfErr (exitLine c s status)) with
      place := .exiting status }
  | .exiting status => some { s with place := .exited status }
  | .ignoring sg => some { s with deaf := true, pending := [], place := .announcing sg }
  | .announcing sg =>
    some { s.printfOut c ("Received SIG".toList ++ sg.name ++ ", stopping ".toList ++ unit c ++ "...".toList) with
      place := .stopping }
  | .stopping => some { s with stops := s.stops + 1, place := .waiting }
  | .exited _ | .killed _ => none

def Shell.over (s : Shell) : Bool :=
  match s.place with
  | .exited _ | .killed _ => true
  | _ => false

/-- A fresh child has the default actions, but a background process ignores `INT`. -/
def Child.signalled (sg : Signal) : Child → Child
  | .fresh => if sg = .int then .fresh else .ended (128 + sg.number)
  | child => child

def Shell.receive (s : Shell) (sg : Signal) (group : Bool) : Shell :=
  let t := if group then { s with child := s.child.map (Child.signalled sg) } else s
  if t.over || t.deaf then t
  else if sg ∈ t.trapped then { t with pending := if sg ∈ t.pending then t.pending else t.pending ++ [sg] }
  else { t with place := .killed sg }

/-- Traps come before the next command; only `stop` may get to its first command before the next trap. -/
def step (s : Shell) : Act → Option Shell
  | .signal sg group => some (s.receive sg group)
  | .trap =>
    match s.pending with
    | [] => none
    | sg :: rest =>
      if s.over || s.deaf then none
      else some { s with
        pending := rest
        place := .ignoring sg
        interrupted := s.interrupted.orElse fun _ => some s.place }
  | .command =>
    match s.place with
    | .ignoring _ => s.execute c
    | _ => if s.pending = [] then s.execute c else none
  | .childDeaf => if s.child = some .fresh then some { s with child := some .running } else none
  | .childEnds status =>
    if s.child = some .fresh ∨ s.child = some .running then some { s with child := some (.ended status) } else none

def run (acts : List Act) (s : Shell) : Shell := acts.foldl (fun s a => (step c s a).getD s) s

/-! ## What the script knows -/

/-- The traps before a command. -/
def Place.traps : Place → List Signal
  | .begin | .trapping .term => []
  | .trapping .hup => [.term]
  | .trapping .int => [.hup, .term]
  | _ => [.int, .hup, .term]

/-- Whether `STARTPID` is set before a command. -/
def Place.named : Place → Bool
  | .begin | .trapping _ | .starting | .background | .forking | .naming => false
  | _ => true

/-- What holds before a command of the script itself. -/
def Holds (p : Place) (s : Shell) : Prop :=
  s.trapped = p.traps ∧ s.named = p.named ∧ match p with
    | .begin | .trapping _ | .starting | .background | .forking => s.child = none ∧ s.reaped = false
    | .naming | .forked | .waiting => s.child ≠ none ∧ s.reaped = false
    | .waited status | .telling status | .exiting status => s.child = some (.ended status) ∧ s.reaped = true
    | _ => False

/-- The status that `finish` gets after the script was interrupted before `p`. -/
def Learnt (p : Place) (child : Option Child) (status : Nat) : Prop :=
  match p with
  | .begin | .trapping _ | .starting | .background | .forking => child = none ∧ status = c.unwaitable false
  | .naming => status = c.unwaitable false
  | .forked | .waiting => child = some (.ended status)
  | .waited rc | .telling rc | .exiting rc => child = some (.ended rc) ∧ status = c.unwaitable true
  | _ => False

/-- How far it is. -/
inductive Phase (s : Shell) : Prop
  | script (hint : s.interrupted = none) (hdeaf : s.deaf = false) (hstops : s.stops = 0) (hp : Holds s.place s)
  | refused (hplace : s.place = .exited 1) (hargs : c.args.length ≠ 1) (hint : s.interrupted = none)
      (hstops : s.stops = 0) (hchild : s.child = none)
  | finished {status : Nat} (hplace : s.place = .exited status) (hint : s.interrupted = none) (hstops : s.stops = 0)
      (hchild : s.child = some (.ended status))
  | killed {sg : Signal} (hplace : s.place = .killed sg) (hstops : s.stops = 0) (hchild : s.child = none)
  | caught {p : Place} {sg : Signal} (hint : s.interrupted = some p) (hdeaf : s.deaf = false) (hstops : s.stops = 0)
      (hplace : s.place = .ignoring sg) (hp : Holds p s)
  | deafened {p : Place} (hint : s.interrupted = some p) (hdeaf : s.deaf = true) (hpending : s.pending = [])
      (hstops : s.stops = 0) (hplace : (∃ sg, s.place = .announcing sg) ∨ s.place = .stopping) (hp : Holds p s)
  | asked {p : Place} (hint : s.interrupted = some p) (hdeaf : s.deaf = true) (hpending : s.pending = [])
      (hstops : s.stops = 1) (hplace : s.place = .waiting) (hp : Holds p s)
  | learnt {p : Place} {status : Nat} (hint : s.interrupted = some p) (hdeaf : s.deaf = true)
      (hpending : s.pending = []) (hstops : s.stops = 1)
      (hplace : s.place = .waited status ∨ s.place = .telling status ∨ s.place = .exiting status ∨
        s.place = .exited status) (hlearnt : Learnt c p s.child status)

section
variable {c : Setting} {s s' : Shell} {p : Place} {sg : Signal}

/-! ## The child and the signals -/

theorem Holds.child {ch ch' : Child} (h : Holds p s) (hch : s.child = some ch) (hopen : ∀ status, ch ≠ .ended status) :
    Holds p { s with child := some ch' } := by
  obtain ⟨htraps, hnamed, hp⟩ := h
  refine ⟨htraps, hnamed, ?_⟩
  cases p with
  | begin | trapping _ | starting | background | forking =>
    rw [hch] at hp
    cases hp.1
  | naming | forked | waiting => exact ⟨Option.some_ne_none _, hp.2⟩
  | waited | telling | exiting => exact absurd (Option.some.inj (hch.symm.trans hp.1)) (hopen _)
  | _ => exact hp

theorem Learnt.child {ch ch' : Child} {status : Nat} (h : Learnt c p (some ch) status)
    (hopen : ∀ status, ch ≠ .ended status) : Learnt c p (some ch') status := by
  cases p with
  | begin | trapping _ | starting | background | forking => cases h.1
  | naming => exact h
  | forked | waiting => exact absurd (Option.some.inj h) (hopen _)
  | waited | telling | exiting => exact absurd (Option.some.inj h.1) (hopen _)
  | _ => exact h

/-- A step of the child changes nothing for the shell. -/
theorem Phase.child {ch ch' : Child} (h : Phase c s) (hch : s.child = some ch)
    (hopen : ∀ status, ch ≠ .ended status) : Phase c { s with child := some ch' } := by
  cases h with
  | script hint hdeaf hstops hp => exact .script hint hdeaf hstops (hp.child hch hopen)
  | refused hplace hargs hint hstops hchild => rw [hch] at hchild; cases hchild
  | finished hplace hint hstops hchild => exact absurd (Option.some.inj (hch.symm.trans hchild)) (hopen _)
  | killed hplace hstops hchild => rw [hch] at hchild; cases hchild
  | caught hint hdeaf hstops hplace hp => exact .caught hint hdeaf hstops hplace (hp.child hch hopen)
  | deafened hint hdeaf hpending hstops hplace hp =>
    exact .deafened hint hdeaf hpending hstops hplace (hp.child hch hopen)
  | asked hint hdeaf hpending hstops hplace hp => exact .asked hint hdeaf hpending hstops hplace (hp.child hch hopen)
  | learnt hint hdeaf hpending hstops hplace hlearnt =>
    rw [hch] at hlearnt
    exact .learnt hint hdeaf hpending hstops hplace (hlearnt.child hopen)

theorem Phase.signalled (h : Phase c s) : Phase c { s with child := s.child.map (Child.signalled sg) } := by
  cases hch : s.child with
  | none =>
    rw [Option.map_none, ← hch]
    exact h
  | some ch =>
    cases ch with
    | fresh => exact h.child hch (by simp)
    | running => exact h.child hch (by simp)
    | ended status =>
      show Phase c { s with child := some (.ended status) }
      rw [← hch]
      exact h

/-- Before the traps are all set, there is no child. -/
theorem Holds.untrapped (h : Holds p s) (hsg : sg ∉ s.trapped) : s.child = none := by
  obtain ⟨htraps, -, hp⟩ := h
  rw [htraps] at hsg
  cases p with
  | begin | trapping sg' | starting | background | forking => exact hp.1
  | _ => cases sg <;> simp [Place.traps] at hsg

/-- A signal, as far as the shell is concerned. -/
theorem Phase.receive (h : Phase c s) (hover : s.over = false) (hdeaf : s.deaf = false) :
    (∀ pending, Phase c { s with pending := pending }) ∧ (sg ∉ s.trapped → Phase c { s with place := .killed sg }) := by
  cases h with
  | script hint hdeaf hstops hp =>
    exact ⟨fun pending => .script hint hdeaf hstops hp, fun hsg => .killed rfl hstops (hp.untrapped hsg)⟩
  | caught hint hdeaf hstops hplace hp =>
    exact ⟨fun pending => .caught hint hdeaf hstops hplace hp, fun hsg => .killed rfl hstops (hp.untrapped hsg)⟩
  | refused hplace | finished hplace | killed hplace => simp [Shell.over, hplace] at hover
  | deafened _ hd | asked _ hd | learnt _ hd => rw [hd] at hdeaf; cases hdeaf

/-! ## Commands -/

theorem printfOut_eq (text : Str) : ∃ out, s.printfOut c text = { s with out := out } := by
  unfold Shell.printfOut
  split
  · exact ⟨s.out, rfl⟩
  · exact ⟨_, rfl⟩

theorem request_eq (what : Str) : ∃ out, request c s what = { s with out := out } := by
  unfold request
  split
  · obtain ⟨out, hout⟩ := @printfOut_eq c s ("Requesting kmscon ".toList ++ (if what = "Background".toList then
      "background." else "foreground.").toList)
    exact ⟨_, by rw [hout]⟩
  · exact ⟨s.out, rfl⟩

/-- What a command does, apart from what it tells. -/
inductive Moves (c : Setting) (s : Shell) : Shell → Prop
  | refuse (h : s.place = .begin) (hargs : c.args.length ≠ 1) : Moves c s { s with place := .exited 1 }
  | go {q : Place} (h : s.place = .begin ∧ q = .trapping .term ∨ s.place = .starting ∧ q = .background ∨
      s.place = .background ∧ q = .forking ∨ s.place = .forked ∧ q = .waiting) : Moves c s { s with place := q }
  | trap {sg : Signal} {q : Place} (h : s.place = .trapping sg)
      (hq : sg = .term ∧ q = .trapping .hup ∨ sg = .hup ∧ q = .trapping .int ∨ sg = .int ∧ q = .starting) :
      Moves c s { s with trapped := sg :: s.trapped, place := q }
  | fork (h : s.place = .forking) : Moves c s { s with child := some .fresh, place := .naming }
  | name (h : s.place = .naming) : Moves c s { s with named := true, place := .forked }
  | wait {status : Nat} (h : s.place = .waiting) (hwait : s.wait c = some status) :
      Moves c s { s with reaped := s.named, place := .waited status }
  | finish {status : Nat} {q : Place} (h : s.place = .waited status ∧ q = .telling status ∨
      s.place = .telling status ∧ q = .exiting status ∨ s.place = .exiting status ∧ q = .exited status) :
      Moves c s { s with place := q }
  | ignore {sg : Signal} (h : s.place = .ignoring sg) :
      Moves c s { s with deaf := true, pending := [], place := .announcing sg }
  | announce {sg : Signal} (h : s.place = .announcing sg) : Moves c s { s with place := .stopping }
  | ask (h : s.place = .stopping) : Moves c s { s with stops := s.stops + 1, place := .waiting }

theorem execute_moves (h : s.execute c = some s') :
    ∃ t out err, s' = { t with out := out, err := err } ∧ Moves c s t := by
  unfold Shell.execute at h
  split at h
  · rename_i hplace
    split at h
    · rename_i hargs
      obtain rfl := Option.some.inj h
      exact ⟨_, _, _, rfl, .refuse hplace hargs⟩
    · obtain rfl := Option.some.inj h
      exact ⟨_, s.out, s.err, rfl, .go (Or.inl ⟨hplace, rfl⟩)⟩
  · rename_i hplace
    obtain rfl := Option.some.inj h
    exact ⟨_, s.out, s.err, rfl, .trap hplace (Or.inl ⟨rfl, rfl⟩)⟩
  · rename_i hplace
    obtain rfl := Option.some.inj h
    exact ⟨_, s.out, s.err, rfl, .trap hplace (Or.inr (Or.inl ⟨rfl, rfl⟩))⟩
  · rename_i hplace
    obtain rfl := Option.some.inj h
    exact ⟨_, s.out, s.err, rfl, .trap hplace (Or.inr (Or.inr ⟨rfl, rfl⟩))⟩
  · rename_i hplace
    obtain ⟨out, hout⟩ := @printfOut_eq c s ("Starting ".toList ++ unit c ++ "...".toList)
    rw [hout] at h
    obtain rfl := Option.some.inj h
    exact ⟨_, out, s.err, rfl, .go (Or.inr (Or.inl ⟨hplace, rfl⟩))⟩
  · rename_i hplace
    obtain ⟨out, hout⟩ := @request_eq c s "Background".toList
    rw [hout] at h
    obtain rfl := Option.some.inj h
    exact ⟨_, out, s.err, rfl, .go (Or.inr (Or.inr (Or.inl ⟨hplace, rfl⟩)))⟩
  · rename_i hplace
    obtain rfl := Option.some.inj h
    exact ⟨_, s.out, s.err, rfl, .fork hplace⟩
  · rename_i hplace
    obtain rfl := Option.some.inj h
    exact ⟨_, s.out, s.err, rfl, .name hplace⟩
  · rename_i hplace
    obtain ⟨out, hout⟩ := @printfOut_eq c s ("Forked systemctl, PID ".toList ++ decimal c.pid ++ ".".toList)
    rw [hout] at h
    obtain rfl := Option.some.inj h
    exact ⟨_, out, s.err, rfl, .go (Or.inr (Or.inr (Or.inr ⟨hplace, rfl⟩)))⟩
  · rename_i hplace
    obtain ⟨status, hwait, rfl⟩ := Option.map_eq_some_iff.1 h
    exact ⟨_, s.out, s.err, rfl, .wait hplace hwait⟩
  · rename_i status hplace
    obtain ⟨out, hout⟩ := @request_eq c s "Foreground".toList
    rw [hout] at h
    obtain rfl := Option.some.inj h
    exact ⟨_, out, s.err, rfl, .finish (Or.inl ⟨hplace, rfl⟩)⟩
  · rename_i status hplace
    split at h
    · obtain ⟨out, hout⟩ := @printfOut_eq c s (exitLine c s status)
      rw [hout] at h
      obtain rfl := Option.some.inj h
      exact ⟨_, out, s.err, rfl, .finish (Or.inr (Or.inl ⟨hplace, rfl⟩))⟩
    · obtain rfl := Option.some.inj h
      exact ⟨_, s.out, _, rfl, .finish (Or.inr (Or.inl ⟨hplace, rfl⟩))⟩
  · rename_i status hplace
    obtain rfl := Option.some.inj h
    exact ⟨_, s.out, s.err, rfl, .finish (Or.inr (Or.inr ⟨hplace, rfl⟩))⟩
  · rename_i sg hplace
    obtain rfl := Option.some.inj h
    exact ⟨_, s.out, s.err, rfl, .ignore hplace⟩
  · rename_i sg hplace
    obtain ⟨out, hout⟩ := @printfOut_eq c s ("Received SIG".toList ++ sg.name ++ ", stopping ".toList ++ unit c ++
      "...".toList)
    rw [hout] at h
    obtain rfl := Option.some.inj h
    exact ⟨_, out, s.err, rfl, .announce hplace⟩
  · rename_i hplace
    obtain rfl := Option.some.inj h
    exact ⟨_, s.out, s.err, rfl, .ask hplace⟩
  · cases h
  · cases h

theorem Phase.tell {out err : List Str} (h : Phase c s) : Phase c { s with out := out, err := err } := by
  cases h with
  | script hint hdeaf hstops hp => exact .script hint hdeaf hstops hp
  | refused hplace hargs hint hstops hchild => exact .refused hplace hargs hint hstops hchild
  | finished hplace hint hstops hchild => exact .finished hplace hint hstops hchild
  | killed hplace hstops hchild => exact .killed hplace hstops hchild
  | caught hint hdeaf hstops hplace hp => exact .caught hint hdeaf hstops hplace hp
  | deafened hint hdeaf hpending hstops hplace hp => exact .deafened hint hdeaf hpending hstops hplace hp
  | asked hint hdeaf hpending hstops hplace hp => exact .asked hint hdeaf hpending hstops hplace hp
  | learnt hint hdeaf hpending hstops hplace hlearnt => exact .learnt hint hdeaf hpending hstops hplace hlearnt

theorem wait_unnamed (hnamed : s.named = false) : s.wait c = some (c.unwaitable false) := by
  rw [Shell.wait, hnamed]
  rfl

theorem wait_reaped (hnamed : s.named = true) (hreaped : s.reaped = true) : s.wait c = some (c.unwaitable true) := by
  rw [Shell.wait, hnamed, hreaped]
  rfl

theorem wait_child {status : Nat} (hnamed : s.named = true) (hreaped : s.reaped = false) :
    s.wait c = some status ↔ s.child = some (.ended status) := by
  rw [Shell.wait, hnamed, hreaped]
  cases hchild : s.child with
  | none => simp
  | some ch => cases ch <;> simp

/-- What `finish` learns. -/
theorem Holds.learnt {status : Nat} (h : Holds p s) (hwait : s.wait c = some status) :
    Learnt c p s.child status := by
  obtain ⟨-, hnamed, hp⟩ := h
  cases p with
  | begin | trapping _ | starting | background | forking =>
    rw [wait_unnamed hnamed] at hwait
    exact ⟨hp.1, (Option.some.inj hwait).symm⟩
  | naming =>
    rw [wait_unnamed hnamed] at hwait
    exact (Option.some.inj hwait).symm
  | forked | waiting => exact (wait_child hnamed hp.2).1 hwait
  | waited | telling | exiting =>
    rw [wait_reaped hnamed hp.2] at hwait
    exact ⟨hp.1, (Option.some.inj hwait).symm⟩
  | _ => exact hp.elim

theorem not_over_of_moves (hm : Moves c s s') : s.over = false := by
  unfold Shell.over
  cases hm with
  | refuse h | trap h | fork h | name h | wait h | ignore h | announce h | ask h => rw [h]
  | go h => rcases h with ⟨h, -⟩ | ⟨h, -⟩ | ⟨h, -⟩ | ⟨h, -⟩ <;> rw [h]
  | finish h => rcases h with ⟨h, -⟩ | ⟨h, -⟩ | ⟨h, -⟩ <;> rw [h]

/-- A command of the script, while nothing has interrupted it. -/
theorem phase_script (hint : s.interrupted = none) (hdeaf : s.deaf = false) (hstops : s.stops = 0)
    (hp : Holds s.place s) (hm : Moves c s s') : Phase c s' := by
  cases hm with
  | refuse h hargs =>
    rw [h] at hp
    exact .refused rfl hargs hint hstops hp.2.2.1
  | go h =>
    refine .script hint hdeaf hstops ?_
    rcases h with ⟨h, rfl⟩ | ⟨h, rfl⟩ | ⟨h, rfl⟩ | ⟨h, rfl⟩ <;> (rw [h] at hp; exact hp)
  | trap h hq =>
    refine .script hint hdeaf hstops ?_
    rw [h] at hp
    rcases hq with ⟨rfl, rfl⟩ | ⟨rfl, rfl⟩ | ⟨rfl, rfl⟩ <;> exact ⟨congrArg (_ :: ·) hp.1, hp.2.1, hp.2.2⟩
  | fork h =>
    rw [h] at hp
    exact .script hint hdeaf hstops ⟨hp.1, hp.2.1, Option.some_ne_none _, hp.2.2.2⟩
  | name h =>
    rw [h] at hp
    exact .script hint hdeaf hstops ⟨hp.1, rfl, hp.2.2⟩
  | wait h hwait =>
    rw [h] at hp
    exact .script hint hdeaf hstops ⟨hp.1, hp.2.1, (wait_child hp.2.1 hp.2.2.2).1 hwait, hp.2.1⟩
  | finish h =>
    rcases h with ⟨h, rfl⟩ | ⟨h, rfl⟩ | ⟨h, rfl⟩
    all_goals rw [h] at hp
    · exact .script hint hdeaf hstops hp
    · exact .script hint hdeaf hstops hp
    · exact .finished rfl hint hstops hp.2.2.1
  | ignore h | announce h | ask h =>
    rw [h] at hp
    exact hp.2.2.elim

theorem Phase.moves (h : Phase c s) (hm : Moves c s s') : Phase c s' := by
  have hover := not_over_of_moves hm
  cases h with
  | script hint hdeaf hstops hp => exact phase_script hint hdeaf hstops hp hm
  | refused hplace | finished hplace | killed hplace => simp [Shell.over, hplace] at hover
  | caught hint hdeaf hstops hplace hp =>
    cases hm with
    | ignore h => exact .deafened hint rfl rfl hstops (Or.inl ⟨_, rfl⟩) hp
    | _ h => simp [hplace] at h
  | deafened hint hdeaf hpending hstops hplace hp =>
    cases hm with
    | announce h => exact .deafened hint hdeaf hpending hstops (Or.inr rfl) hp
    | ask h => exact .asked hint hdeaf hpending (congrArg (· + 1) hstops) rfl hp
    | _ h => rcases hplace with ⟨sg, hplace⟩ | hplace <;> simp [hplace] at h
  | asked hint hdeaf hpending hstops hplace hp =>
    cases hm with
    | wait h hwait => exact .learnt hint hdeaf hpending hstops (Or.inl rfl) (hp.learnt hwait)
    | _ h => simp [hplace] at h
  | learnt hint hdeaf hpending hstops hplace hlearnt =>
    cases hm with
    | finish h =>
      refine .learnt hint hdeaf hpending hstops ?_ hlearnt
      rcases h with ⟨h, rfl⟩ | ⟨h, rfl⟩ | ⟨h, rfl⟩ <;> simpa [h] using hplace
    | _ h => rcases hplace with hplace | hplace | hplace | hplace <;> simp [hplace] at h

/-- **One step.** -/
theorem Phase.step {a : Act} (h : Phase c s) (hs : step c s a = some s') : Phase c s' := by
  cases a with
  | signal sg group =>
    obtain rfl := Option.some.inj hs
    unfold Shell.receive
    have ht : Phase c (if group then { s with child := s.child.map (Child.signalled sg) } else s) := by
      split
      · exact h.signalled
      · exact h
    generalize (if group then { s with child := s.child.map (Child.signalled sg) } else s) = t at ht
    dsimp only
    split
    · exact ht
    · rename_i hlistens
      simp only [Bool.or_eq_true, not_or, Bool.not_eq_true] at hlistens
      obtain ⟨hpending, hkilled⟩ := @Phase.receive c t sg ht hlistens.1 hlistens.2
      split
      · exact hpending _
      · rename_i hsg
        exact hkilled hsg
  | trap =>
    simp only [Anchor.step] at hs
    split at hs
    · cases hs
    · split at hs
      · cases hs
      · rename_i hlistens
        simp only [Bool.or_eq_true, not_or, Bool.not_eq_true] at hlistens
        obtain rfl := Option.some.inj hs
        cases h with
        | script hint hdeaf hstops hp => exact .caught (by rw [hint]; rfl) hdeaf hstops rfl hp
        | caught hint hdeaf hstops hplace hp => exact .caught (by rw [hint]; rfl) hdeaf hstops rfl hp
        | refused hplace | finished hplace | killed hplace => simp [Shell.over, hplace] at hlistens
        | deafened _ hd | asked _ hd | learnt _ hd => simp [hd] at hlistens
  | command =>
    have hexecute : s.execute c = some s' := by
      simp only [Anchor.step] at hs
      split at hs
      · exact hs
      · split at hs
        · exact hs
        · cases hs
    obtain ⟨t, out, err, rfl, hm⟩ := execute_moves hexecute
    exact (h.moves hm).tell
  | childDeaf =>
    simp only [Anchor.step] at hs
    split at hs
    · rename_i hch
      obtain rfl := Option.some.inj hs
      exact h.child hch (by simp)
    · cases hs
  | childEnds status =>
    simp only [Anchor.step] at hs
    split at hs
    · rename_i hch
      obtain rfl := Option.some.inj hs
      rcases hch with hch | hch <;> exact h.child hch (by simp)
    · cases hs

theorem phase_run (acts : List Act) (h : Phase c s) : Phase c (run c acts s) := by
  induction acts generalizing s with
  | nil => exact h
  | cons a acts ih =>
    refine ih ?_
    show Phase c ((Anchor.step c s a).getD s)
    cases hs : Anchor.step c s a with
    | none => exact h
    | some s' => exact h.step hs

end

/-! ## The shell by itself -/

/-- The next step of the shell, which runs a trap first when it has to. -/
def own (s : Shell) : Option Shell := (step c s .command).orElse fun _ => step c s .trap

/-- It goes on by itself for up to `n` steps. -/
def settle : Nat → Shell → Shell
  | 0, s => s
  | n + 1, s => match own c s with
    | none => s
    | some s' => settle n s'

/-- It waits for its child. -/
def Blocked (s : Shell) : Prop := s.place = .waiting ∧ s.wait c = none ∧ s.pending = []

/-- The steps that are left. -/
def Place.rank : Place → Nat
  | .begin => 13
  | .trapping .term => 12
  | .trapping .hup => 11
  | .trapping .int => 10
  | .starting => 9
  | .background => 8
  | .forking | .ignoring _ => 7
  | .naming | .announcing _ => 6
  | .forked | .stopping => 5
  | .waiting => 4
  | .waited _ => 3
  | .telling _ => 2
  | .exiting _ => 1
  | .exited _ | .killed _ => 0

/-- `stop` is still to come while nothing has interrupted the script. -/
def Shell.rank (s : Shell) : Nat := (if s.interrupted = none then 20 else 0) + s.place.rank

section
variable {c : Setting} {s s' : Shell}

theorem rank_le : s.rank ≤ 33 := by
  have hplace : s.place.rank ≤ 13 := by
    cases s.place with
    | trapping sg => cases sg <;> decide
    | _ => simp [Place.rank]
  unfold Shell.rank
  split <;> omega

theorem rank_of_moves (hm : Moves c s s') :
    s'.place.rank < s.place.rank ∧ s'.interrupted = s.interrupted ∧ ∀ sg, s'.place ≠ .killed sg := by
  cases hm with
  | go h =>
    rcases h with ⟨h, rfl⟩ | ⟨h, rfl⟩ | ⟨h, rfl⟩ | ⟨h, rfl⟩ <;> exact ⟨by rw [h]; simp [Place.rank], rfl, by simp⟩
  | trap h hq =>
    rcases hq with ⟨rfl, rfl⟩ | ⟨rfl, rfl⟩ | ⟨rfl, rfl⟩ <;> exact ⟨by rw [h]; simp [Place.rank], rfl, by simp⟩
  | finish h =>
    rcases h with ⟨h, rfl⟩ | ⟨h, rfl⟩ | ⟨h, rfl⟩ <;> exact ⟨by rw [h]; simp [Place.rank], rfl, by simp⟩
  | _ h => exact ⟨by rw [h]; simp [Place.rank], rfl, by simp⟩

theorem execute_isSome (hover : s.over = false) (hwait : s.place = .waiting → s.wait c ≠ none) :
    ∃ s', s.execute c = some s' := by
  unfold Shell.over at hover
  unfold Shell.execute
  split
  · split <;> exact ⟨_, rfl⟩
  all_goals try exact ⟨_, rfl⟩
  · rename_i hplace
    obtain ⟨status, hstatus⟩ := Option.ne_none_iff_exists'.1 (hwait hplace)
    exact ⟨_, by rw [hstatus]; rfl⟩
  · rename_i hplace
    simp [hplace] at hover
  · rename_i hplace
    simp [hplace] at hover

/-- **Its own steps** lead on, unless it is over or waits for its child. -/
theorem own_progress (h : Phase c s) (hover : s.over = false) (hfree : ¬ Blocked c s) :
    ∃ s', own c s = some s' ∧ s'.rank < s.rank ∧ (∀ sg, s'.place ≠ .killed sg) ∧
      (s.interrupted ≠ none ∨ s.pending ≠ [] → s'.interrupted ≠ none) := by
  by_cases hcommand : s.pending = [] ∨ ∃ sg, s.place = .ignoring sg
  · have hwait : s.place = .waiting → s.wait c ≠ none := by
      intro hplace hnone
      rcases hcommand with hpending | ⟨sg, hignoring⟩
      · exact hfree ⟨hplace, hnone, hpending⟩
      · rw [hplace] at hignoring
        cases hignoring
    obtain ⟨s', hexecute⟩ := execute_isSome hover hwait
    have hstep : step c s .command = some s' := by
      simp only [step]
      split
      · exact hexecute
      · rename_i hnot
        rw [if_pos (hcommand.resolve_right fun ⟨sg, hsg⟩ => hnot sg hsg)]
        exact hexecute
    obtain ⟨t, out, err, rfl, hm⟩ := execute_moves hexecute
    obtain ⟨hrank, hint, hkilled⟩ := rank_of_moves hm
    refine ⟨{ t with out := out, err := err }, by rw [own, hstep]; rfl, ?_, hkilled, fun hcaught => ?_⟩
    · show (if t.interrupted = none then 20 else 0) + t.place.rank < _
      rw [hint, Shell.rank]
      omega
    · show t.interrupted ≠ none
      rw [hint]
      refine hcaught.elim id fun hpending => ?_
      -- with a trap to come, only `stop` takes a command
      obtain ⟨sg, hignoring⟩ := hcommand.resolve_left hpending
      cases h with
      | caught hint => simp [hint]
      | script _ _ _ hp =>
        rw [hignoring] at hp
        exact hp.2.2.elim
      | refused hplace | finished hplace | killed hplace | asked _ _ _ _ hplace =>
        rw [hignoring] at hplace
        cases hplace
      | deafened hint | learnt hint => simp [hint]
  · rw [not_or, not_exists] at hcommand
    obtain ⟨hpending, hplace⟩ := hcommand
    obtain ⟨sg, rest, hrest⟩ := List.exists_cons_of_ne_nil hpending
    have hlistens : s.deaf = false ∧ s.interrupted = none := by
      cases h with
      | script hint hdeaf => exact ⟨hdeaf, hint⟩
      | caught _ _ _ hignoring => exact absurd hignoring (hplace _)
      | refused hp | finished hp | killed hp => simp [Shell.over, hp] at hover
      | deafened _ _ hnone | asked _ _ hnone | learnt _ _ hnone => exact absurd hnone hpending
    have hnone : step c s .command = none := by
      simp only [step]
      cases hp : s.place with
      | ignoring sg => exact absurd hp (hplace sg)
      | _ => exact if_neg hpending
    have htrap : step c s .trap = some { s with
        pending := rest
        place := .ignoring sg
        interrupted := s.interrupted.orElse fun _ => some s.place } := by
      simp [step, hrest, hover, hlistens.1]
    refine ⟨_, by rw [own, hnone, htrap]; rfl, ?_, by simp, fun _ => by simp [hlistens.2]⟩
    simp only [Shell.rank, hlistens.2, Option.orElse_none, Place.rank]
    simp only [reduceCtorEq, if_true, if_false]
    omega

theorem own_of_blocked (h : Blocked c s) : own c s = none := by
  obtain ⟨hplace, hwait, hpending⟩ := h
  simp [own, step, Shell.execute, hplace, hwait, hpending]

theorem own_of_over (h : s.over = true) : own c s = none := by
  unfold Shell.over at h
  split at h
  · rename_i hplace
    cases hp : s.pending <;> simp [own, step, Shell.execute, Shell.over, hplace, hp]
  · rename_i hplace
    cases hp : s.pending <;> simp [own, step, Shell.execute, Shell.over, hplace, hp]
  · cases h

theorem phase_own (h : Phase c s) (hs : own c s = some s') : Phase c s' := by
  unfold own at hs
  cases hcommand : step c s .command with
  | some t =>
    rw [hcommand] at hs
    obtain rfl := Option.some.inj hs
    exact h.step hcommand
  | none =>
    rw [hcommand] at hs
    have htrap : step c s .trap = some s' := hs
    exact h.step htrap

/-- It is interrupted, and not killed: then the session has been asked to stop when the shell is over or waits. -/
theorem stops_of_settled (h : Phase c s) (hsettled : s.over = true ∨ Blocked c s) (hkilled : ∀ sg, s.place ≠ .killed sg)
    (hint : s.interrupted ≠ none) : s.stops = 1 := by
  have hplaces : s.over = true ∨ s.place = .waiting := hsettled.imp_right fun hblocked => hblocked.1
  cases h with
  | script hnone | refused _ _ hnone | finished _ hnone => exact absurd hnone hint
  | killed hplace => exact absurd hplace (hkilled _)
  | caught _ _ _ hplace => simp [Shell.over, hplace] at hplaces
  | deafened _ _ _ _ hplace => rcases hplace with ⟨sg, hplace⟩ | hplace <;> simp [Shell.over, hplace] at hplaces
  | asked _ _ _ hstops => exact hstops
  | learnt _ _ _ hstops => exact hstops

theorem settle_of_none {n : Nat} (h : own c s = none) : settle c n s = s := by
  cases n with
  | zero => rfl
  | succ n => rw [settle, h]

/-- It ends up in waiting for its child, or at its end, and has answered its signals by then. -/
theorem settle_spec {n : Nat} (h : Phase c s) (hrank : s.rank ≤ n) :
    ((settle c n s).over = true ∨ Blocked c (settle c n s)) ∧
      ((∀ sg, s.place ≠ .killed sg) → s.interrupted ≠ none ∨ s.over = false ∧ s.pending ≠ [] →
        (settle c n s).stops = 1) := by
  induction n generalizing s with
  | zero =>
    have hover : s.over = true := by
      unfold Shell.rank at hrank
      unfold Shell.over
      cases hp : s.place with
      | exited | killed => rfl
      | trapping sg => cases sg <;> simp [hp, Place.rank] at hrank
      | _ => simp [hp, Place.rank] at hrank
    refine ⟨Or.inl hover, fun hkilled hcaught => stops_of_settled h (Or.inl hover) hkilled ?_⟩
    exact hcaught.resolve_right fun hcaught => by simp [hover] at hcaught
  | succ n ih =>
    by_cases hsettled : s.over = true ∨ Blocked c s
    · rw [settle_of_none (hsettled.elim own_of_over own_of_blocked)]
      refine ⟨hsettled, fun hkilled hcaught => stops_of_settled h hsettled hkilled ?_⟩
      refine hcaught.resolve_right fun ⟨hover, hpending⟩ => ?_
      rcases hsettled with hsettled | hblocked
      · simp [hover] at hsettled
      · exact hpending hblocked.2.2
    · rw [not_or, Bool.not_eq_true] at hsettled
      obtain ⟨s', hown, hless, hkilled', hint⟩ := own_progress h hsettled.1 hsettled.2
      obtain ⟨hends, hanswered⟩ := ih (phase_own h hown) (by omega)
      rw [settle, hown]
      exact ⟨hends, fun _ hcaught => hanswered hkilled' (Or.inl (hint (hcaught.imp_right And.right)))⟩

/-! ## Runs -/

/-- What it means that the script exits. -/
inductive Outcome (c : Setting) (s : Shell) (status : Nat) : Prop
  | refused (hargs : c.args.length ≠ 1) (hstatus : status = 1) (hchild : s.child = none) (hstops : s.stops = 0)
  | undisturbed (hint : s.interrupted = none) (hchild : s.child = some (.ended status)) (hstops : s.stops = 0)
  | interrupted {p : Place} (hint : s.interrupted = some p) (hstops : s.stops = 1)
      (hlearnt : Learnt c p s.child status)

structure Anchored (c : Setting) (s : Shell) : Prop where
  /-- The session is asked to stop at most once, and only for a signal. -/
  once : s.stops = 0 ∨ s.stops = 1 ∧ s.interrupted ≠ none
  exits : ∀ status, s.place = .exited status → Outcome c s status
  /-- The script leaves no child behind, but for one whose PID it has not read yet. -/
  leaves : ∀ status, s.place = .exited status → s.interrupted ≠ some .naming →
    s.child = none ∨ ∃ rc, s.child = some (.ended rc)
  /-- A signal kills the shell only before there is a child. -/
  killed : ∀ sg, s.place = .killed sg → s.child = none
  /-- By itself, the shell gets to its end, or waits for its child. -/
  settles : (settle c 33 s).over = true ∨ Blocked c (settle c 33 s)
  /-- Every signal that was caught is answered by then. -/
  answers : s.over = false → s.interrupted ≠ none ∨ s.pending ≠ [] → (settle c 33 s).stops = 1

theorem outcome_of_phase {status : Nat} (h : Phase c s) (hexited : s.place = .exited status) : Outcome c s status := by
  cases h with
  | script _ _ _ hp =>
    rw [hexited] at hp
    exact hp.2.2.elim
  | refused hplace hargs _ hstops hchild =>
    obtain rfl : status = 1 := by simpa [hexited] using hplace
    exact .refused hargs rfl hchild hstops
  | @finished rc hplace hint hstops hchild =>
    obtain rfl : status = rc := by simpa [hexited] using hplace
    exact .undisturbed hint hchild hstops
  | killed hplace | caught _ _ _ hplace | asked _ _ _ _ hplace => simp [hexited] at hplace
  | deafened _ _ _ _ hplace => simp [hexited] at hplace
  | @learnt p rc hint _ _ hstops hplace hlearnt =>
    obtain rfl : status = rc := by simpa [hexited] using hplace
    exact .interrupted hint hstops hlearnt

theorem Outcome.leaves {status : Nat} (h : Outcome c s status) (hnaming : s.interrupted ≠ some .naming) :
    s.child = none ∨ ∃ rc, s.child = some (.ended rc) := by
  cases h with
  | refused _ _ hchild => exact Or.inl hchild
  | undisturbed _ hchild => exact Or.inr ⟨_, hchild⟩
  | @interrupted p hint _ hlearnt =>
    cases p with
    | begin | trapping _ | starting | background | forking => exact Or.inl hlearnt.1
    | naming => exact absurd hint hnaming
    | forked | waiting => exact Or.inr ⟨_, hlearnt⟩
    | waited | telling | exiting => exact Or.inr ⟨_, hlearnt.1⟩
    | _ => exact hlearnt.elim

theorem anchored_of_phase (h : Phase c s) : Anchored c s where
  once := by
    cases h with
    | script _ _ hstops | refused _ _ _ hstops | finished _ _ hstops | killed _ hstops | caught _ _ hstops
    | deafened _ _ _ hstops => exact Or.inl hstops
    | asked hint _ _ hstops | learnt hint _ _ hstops => exact Or.inr ⟨hstops, by simp [hint]⟩
  exits status hexited := outcome_of_phase h hexited
  leaves status hexited hnaming := (outcome_of_phase h hexited).leaves hnaming
  killed sg hkilled := by
    cases h with
    | script _ _ _ hp =>
      rw [hkilled] at hp
      exact hp.2.2.elim
    | killed _ _ hchild => exact hchild
    | refused hplace | finished hplace | caught _ _ _ hplace | asked _ _ _ _ hplace => simp [hkilled] at hplace
    | deafened _ _ _ _ hplace | learnt _ _ _ _ hplace => simp [hkilled] at hplace
  settles := (settle_spec h rank_le).1
  answers hover hcaught := by
    refine (settle_spec h rank_le).2 (fun sg hkilled => ?_) (hcaught.imp_right fun hpending => ⟨hover, hpending⟩)
    simp [Shell.over, hkilled] at hover

theorem phase_start : Phase c .start := .script rfl rfl rfl ⟨rfl, rfl, rfl, rfl⟩

/-- **The anchor**, whatever signals come and whenever the child takes its steps: the session is asked to stop
at most once, and for a signal that was caught it is. The script exits with the status of its child, which is
over then, when nothing interrupts it or a signal comes while it waits. A signal before the fork ends it
without a child, one after it has waited costs the status, and one between the fork and `STARTPID=$!` the wait. -/
theorem anchor_runs (c : Setting) (acts : List Act) : Anchored c (run c acts .start) :=
  anchored_of_phase (phase_run acts phase_start)

end

/-- Interrupted before it has the PID, the script does not wait. -/
example : (fun s : Shell => (s.place, s.child)) (run ⟨["sway".toList], false, [], [], 42, fun _ => 2⟩
    (List.replicate 7 .command ++ [.signal .hup false, .trap] ++ List.replicate 7 .command) .start) =
      (.exited 2, some .fresh) := by decide

end Wsmr.Anchor
