import Mathlib.Logic.Function.Basic
import Wsmr.App.Replies
import Wsmr.Lib.Code
import Wsmr.Lib.Fifo

/-!
# Clients of the app-daemon (`src/app/daemon.rs`)

The daemon reads a request from one named pipe until nobody writes to it any more, and writes the reply to
another one, if somebody reads it in time. A client writes, closes, and then reads. With more than one pair of
hands on the pipes, requests run together; with clients that take turns, each is told the answer to what it has
asked itself, whenever a step of the daemon comes, and whatever became of the clients before it
(`daemon_in_turn`).
-/

namespace Wsmr

open Text Fifo

inductive Party where
  | daemon
  | client (i : Nat)
  deriving DecidableEq

inductive Served where
  | reply (bytes : List UInt8)
  | stop
  /-- The request is no text: `run` returns an error. -/
  | failed

/-- What a round of `run` makes of the bytes it has read. -/
def serve (handle : List Str → Except Error Str) (bytes : List UInt8) : Served :=
  match decodeUtf8 bytes with
  | none => .failed
  | some line =>
    match answer handle (request (decode line)) with
    | none => .stop
    | some reply => .reply (utf8 (sent reply))

inductive DaemonState where
  | opening
  /-- In `read_to_string`. -/
  | reading (acc : List UInt8)
  /-- The end has been seen, and the pipe is still open. -/
  | read (acc : List UInt8)
  /-- In `open_fifo_for_write_bounded`. -/
  | sending (reply : List UInt8)
  /-- In `write_all`. -/
  | writing (rest : List UInt8)
  | stopped
  | failed

/-- The pipes have been removed. -/
def DaemonState.gone : DaemonState → Bool
  | .stopped => true
  | _ => false

inductive ClientState where
  | idle
  | writing (rest : List UInt8)
  | wrote
  | reading (got : List UInt8)
  /-- `whole`: it has seen the end. -/
  | done (got : List UInt8) (whole : Bool)

structure Exchange where
  input : Pipe Party UInt8
  output : Pipe Party UInt8
  daemon : DaemonState
  clients : Nat → ClientState

inductive Act where
  | enter (i : Nat)
  | write (i n : Nat)
  | finish (i : Nat)
  | listen (i : Nat)
  | hear (i n : Nat)
  /-- A client is killed, or has had enough. -/
  | leave (i : Nat)
  | daemonOpens
  | daemonReads (n : Nat)
  | daemonServes
  | daemonTries
  /-- Nobody has come to read the reply. -/
  | daemonGivesUp
  | daemonWrites (n : Nat)
  | daemonEnds

namespace Exchange

def start : Exchange := ⟨.unused, .unused, .opening, fun _ => .idle⟩

def setClient (s : Exchange) (i : Nat) (c : ClientState) : Exchange :=
  { s with clients := Function.update s.clients i c }

/-- A client closes what it has open. -/
def hangUp (s : Exchange) (i : Nat) (got : List UInt8) (whole : Bool) : Exchange :=
  match s.clients i with
  | .writing _ => { s with input := s.input.closeWrite (.client i) }.setClient i (.done got whole)
  | .reading _ => { s with output := s.output.closeRead (.client i) }.setClient i (.done got whole)
  | _ => s.setClient i (.done got whole)

def clientStep (message : Nat → List UInt8) (s : Exchange) (i : Nat) : Act → Option Exchange
  | .enter _ =>
    match s.clients i with
    | .idle =>
      if s.daemon.gone then none
      else some ({ s with input := s.input.openWrite (.client i) }.setClient i (.writing (message i)))
    | _ => none
  | .write _ n =>
    match s.clients i with
    | .writing rest =>
      if .client i ∈ s.input.waiting ∨ rest = [] then none
      else match s.input.write (rest.take (n + 1)) with
        | some input => some ({ s with input := input }.setClient i (.writing (rest.drop (n + 1))))
        | none => some (s.hangUp i [] false)
    | _ => none
  | .finish _ =>
    match s.clients i with
    | .writing [] =>
      if .client i ∈ s.input.waiting then none
      else some ({ s with input := s.input.closeWrite (.client i) }.setClient i .wrote)
    | _ => none
  | .listen _ =>
    match s.clients i with
    | .wrote =>
      if s.daemon.gone then none
      else some ({ s with output := s.output.openRead (.client i) }.setClient i (.reading []))
    | _ => none
  | .hear _ n =>
    match s.clients i with
    | .reading got =>
      if .client i ∈ s.output.waiting then none
      else match s.output.read (n + 1) with
        | none => none
        | some ([], _) => some (s.hangUp i got true)
        | some (bytes, output) => some ({ s with output := output }.setClient i (.reading (got ++ bytes)))
    | _ => none
  | .leave _ =>
    match s.clients i with
    | .idle | .done _ _ => none
    | .reading got => some (s.hangUp i got false)
    | _ => some (s.hangUp i [] false)
  | _ => none

def daemonStep (handle : List Str → Except Error Str) (s : Exchange) : Act → Option Exchange
  | .daemonOpens =>
    match s.daemon with
    | .opening => some { s with input := s.input.openRead .daemon, daemon := .reading [] }
    | _ => none
  | .daemonReads n =>
    match s.daemon with
    | .reading acc =>
      if .daemon ∈ s.input.waiting then none
      else match s.input.read (n + 1) with
        | none => none
        | some ([], _) => some { s with daemon := .read acc }
        | some (bytes, input) => some { s with input := input, daemon := .reading (acc ++ bytes) }
    | _ => none
  | .daemonServes =>
    match s.daemon with
    | .read acc =>
      let s := { s with input := s.input.closeRead .daemon }
      match serve handle acc with
      | .reply bytes => some { s with daemon := .sending bytes }
      | .stop => some { s with daemon := .stopped }
      | .failed => some { s with daemon := .failed }
    | _ => none
  | .daemonTries =>
    match s.daemon with
    | .sending reply =>
      (s.output.tryOpenWrite .daemon).map fun output => { s with output := output, daemon := .writing reply }
    | _ => none
  | .daemonGivesUp =>
    match s.daemon with
    | .sending _ => if s.output.readers.isEmpty then some { s with daemon := .opening } else none
    | _ => none
  | .daemonWrites n =>
    match s.daemon with
    | .writing rest =>
      if rest = [] then none
      else match s.output.write (rest.take (n + 1)) with
        | some output => some { s with output := output, daemon := .writing (rest.drop (n + 1)) }
        -- `send` returns an error, which is told and forgotten
        | none => some { s with output := s.output.closeWrite .daemon, daemon := .opening }
    | _ => none
  | .daemonEnds =>
    match s.daemon with
    | .writing [] => some { s with output := s.output.closeWrite .daemon, daemon := .opening }
    | _ => none
  | _ => none

/-- Whose step it is. -/
def client? : Act → Option Nat
  | .enter i | .write i _ | .finish i | .listen i | .hear i _ | .leave i => some i
  | _ => none

def Through (c : ClientState) : Prop := c = .idle ∨ ∃ got whole, c = .done got whole

/-- All clients are through, and the daemon is not reading what one of them has written. -/
def Free (s : Exchange) : Prop :=
  (∀ i, Through (s.clients i)) ∧
    match s.daemon with
    | .reading acc => acc = [] ∧ s.input.data = []
    | .read _ => False
    | _ => True

def step (handle : List Str → Except Error Str) (message : Nat → List UInt8) (s : Exchange) (a : Act) :
    Option Exchange :=
  match client? a with
  | some i => s.clientStep message i a
  | none => s.daemonStep handle a

/-- Runs in which clients take turns. -/
inductive InTurn (handle : List Str → Except Error Str) (message : Nat → List UInt8) : Exchange → Prop
  | start : InTurn handle message start
  | step {s s' : Exchange} {a : Act} (h : InTurn handle message s) (hturn : ∀ i, a = .enter i → s.Free)
      (hs : s.step handle message a = some s') : InTurn handle message s'

/-! ## Between two clients, and during one -/

section
variable (handle : List Str → Except Error Str) (message : Nat → List UInt8)

/-- The request pipe when no client has it open. -/
inductive InputLeft : DaemonState → Pipe Party UInt8 → Prop
  | opening : InputLeft .opening .unused
  | sending {reply : List UInt8} : InputLeft (.sending reply) .unused
  | writing {rest : List UInt8} : InputLeft (.writing rest) .unused
  | stopped (h : ∃ i w, w <+: message i ∧ serve handle w = .stop) : InputLeft .stopped .unused
  | failed (h : ∃ i w, w <+: message i ∧ serve handle w = .failed) : InputLeft .failed .unused
  | waiting : InputLeft (.reading []) ⟨[.daemon], [], [.daemon], []⟩
  | left {acc data : List UInt8} (h : ∃ i, acc ++ data <+: message i) :
      InputLeft (.reading acc) ⟨[.daemon], [], [], data⟩
  | read {acc : List UInt8} (h : ∃ i, acc <+: message i) : InputLeft (.read acc) ⟨[.daemon], [], [], []⟩

/-- The reply pipe when no client has it open. -/
inductive OutputLeft : DaemonState → Pipe Party UInt8 → Prop
  | unused {d : DaemonState} (h : ∀ rest, d ≠ .writing rest) : OutputLeft d .unused
  | writing {rest data : List UInt8} : OutputLeft (.writing rest) ⟨[], [.daemon], [], data⟩

/-- A client that has asked, and has been told nothing. -/
inductive Listening (i : Nat) : ClientState → Pipe Party UInt8 → Prop
  | wrote : Listening i .wrote .unused
  | reading : Listening i (.reading []) ⟨[.client i], [], [.client i], []⟩

/-- The daemon waits for the next request. -/
inductive Awaiting : DaemonState → Pipe Party UInt8 → Prop
  | opening : Awaiting .opening .unused
  | reading : Awaiting (.reading []) ⟨[.daemon], [], [.daemon], []⟩

/-- Client `i` and the daemon, while it is the turn of the client. -/
inductive Talk (i : Nat) : ClientState → DaemonState → Pipe Party UInt8 → Pipe Party UInt8 → Prop
  | queued {d : DaemonState} {output : Pipe Party UInt8} (hd : InputLeft handle message d .unused)
      (hout : OutputLeft d output) : Talk i (.writing (message i)) d ⟨[], [.client i], [.client i], []⟩ output
  | asking {acc data rest : List UInt8} (h : acc ++ data ++ rest = message i) :
      Talk i (.writing rest) (.reading acc) ⟨[.daemon], [.client i], [], data⟩ .unused
  | asked {c : ClientState} {output : Pipe Party UInt8} {acc data : List UInt8} (hc : Listening i c output)
      (h : acc ++ data = message i) : Talk i c (.reading acc) ⟨[.daemon], [], [], data⟩ output
  | taken {c : ClientState} {output : Pipe Party UInt8} (hc : Listening i c output) :
      Talk i c (.read (message i)) ⟨[.daemon], [], [], []⟩ output
  | answering {c : ClientState} {output : Pipe Party UInt8} {reply : List UInt8} (hc : Listening i c output)
      (h : serve handle (message i) = .reply reply) : Talk i c (.sending reply) .unused output
  | told {got data rest : List UInt8} (h : serve handle (message i) = .reply (got ++ data ++ rest)) :
      Talk i (.reading got) (.writing rest) .unused ⟨[.client i], [.daemon], [], data⟩
  | finished {d : DaemonState} {input : Pipe Party UInt8} {got data : List UInt8} (hd : Awaiting d input)
      (h : serve handle (message i) = .reply (got ++ data)) : Talk i (.reading got) d input ⟨[.client i], [], [], data⟩
  | dropped {c : ClientState} {d : DaemonState} {input output : Pipe Party UInt8} (hd : Awaiting d input)
      (hc : Listening i c output) : Talk i c d input output
  | gone {c : ClientState} {d : DaemonState} {output : Pipe Party UInt8} (hc : Listening i c output)
      (hd : d = .stopped ∧ serve handle (message i) = .stop ∨ d = .failed ∧ serve handle (message i) = .failed) :
      Talk i c d .unused output

/-- What a client has been told is a piece of the answer to what it has asked. -/
def Told (i : Nat) : ClientState → Prop
  | .done got whole => (got = [] ∧ whole = false) ∨ ∃ reply, serve handle (message i) = .reply reply ∧
      got <+: reply ∧ (whole = true → got = reply)
  | _ => True

structure Orderly (s : Exchange) : Prop where
  told : ∀ i, Told handle message i (s.clients i)
  turn : ((∀ i, Through (s.clients i)) ∧ InputLeft handle message s.daemon s.input ∧ OutputLeft s.daemon s.output) ∨
    ∃ i, (∀ j ≠ i, Through (s.clients j)) ∧ Talk handle message i (s.clients i) s.daemon s.input s.output

end

section
variable {handle : List Str → Except Error Str} {message : Nat → List UInt8} {s s' : Exchange} {a : Act}

theorem orderly_start : Orderly handle message start where
  told _ := trivial
  turn := Or.inl ⟨fun _ => Or.inl rfl, .opening, .unused nofun⟩

/-! ## Steps of the client whose turn it is -/

section
variable {i : Nat} {c : ClientState} {d : DaemonState} {input output : Pipe Party UInt8} {clients : Nat → ClientState}

/-- The client goes on with its turn, or is through. -/
def Next (handle : List Str → Except Error Str) (message : Nat → List UInt8) (i : Nat) (clients : Nat → ClientState)
    (s' : Exchange) : Prop :=
  ∃ c', s'.clients = Function.update clients i c' ∧ Told handle message i c' ∧
    (Talk handle message i c' s'.daemon s'.input s'.output ∨
      Through c' ∧ InputLeft handle message s'.daemon s'.input ∧ OutputLeft s'.daemon s'.output)

theorem next_through {got : List UInt8} {whole : Bool} (htold : Told handle message i (.done got whole))
    (hin : InputLeft handle message d input) (hout : OutputLeft d output) :
    Next handle message i clients ⟨input, output, d, Function.update clients i (.done got whole)⟩ :=
  ⟨_, rfl, htold, Or.inr ⟨Or.inr ⟨_, _, rfl⟩, hin, hout⟩⟩

theorem next_on (hc : ∀ got whole, c ≠ .done got whole) (h : Talk handle message i c d input output) :
    Next handle message i clients ⟨input, output, d, Function.update clients i c⟩ := by
  refine ⟨c, rfl, ?_, Or.inl h⟩
  cases c with
  | done got whole => exact absurd rfl (hc got whole)
  | _ => trivial

theorem told_nothing : Told handle message i (.done [] false) := Or.inl ⟨rfl, rfl⟩

theorem leave_listening (h : Listening i c output) (hc : clients i = c) :
    clientStep message ⟨input, output, d, clients⟩ i (.leave i) =
      some ⟨input, .unused, d, Function.update clients i (.done [] false)⟩ := by
  cases h with
  | wrote => simp [clientStep, hc, hangUp, setClient]
  | reading => simp [clientStep, hc, hangUp, setClient, Pipe.closeRead, Pipe.settled, Pipe.unused]

theorem Awaiting.inputLeft (h : Awaiting d input) : InputLeft handle message d input := by
  cases h with
  | opening => exact .opening
  | reading => exact .waiting

theorem Awaiting.not_writing (h : Awaiting d input) (rest : List UInt8) : d ≠ .writing rest := by
  cases h <;> simp

theorem next_leave (h : Talk handle message i c d input output) (hc : clients i = c)
    (hs : clientStep message ⟨input, output, d, clients⟩ i (.leave i) = some s') :
    Next handle message i clients s' := by
  cases h with
  | queued hd hout =>
    simp only [clientStep, hangUp, hc, Option.some.injEq] at hs
    subst hs
    exact next_through told_nothing (by simpa [Pipe.closeWrite, Pipe.settled, Pipe.unused] using hd) hout
  | asking h =>
    simp only [clientStep, hangUp, hc, Option.some.injEq] at hs
    subst hs
    refine next_through told_nothing ?_ (.unused (by simp))
    have hleft := @InputLeft.left handle message _ _ ⟨i, ⟨_, h⟩⟩
    simpa [Pipe.closeWrite, Pipe.settled] using hleft
  | asked hl h =>
    obtain rfl := Option.some.inj ((leave_listening hl hc).symm.trans hs)
    exact next_through told_nothing (.left ⟨i, h ▸ List.prefix_rfl⟩) (.unused (by simp))
  | taken hl =>
    obtain rfl := Option.some.inj ((leave_listening hl hc).symm.trans hs)
    exact next_through told_nothing (.read ⟨i, List.prefix_rfl⟩) (.unused (by simp))
  | answering hl h =>
    obtain rfl := Option.some.inj ((leave_listening hl hc).symm.trans hs)
    exact next_through told_nothing .sending (.unused (by simp))
  | told h =>
    simp only [clientStep, hangUp, hc, Option.some.injEq] at hs
    subst hs
    refine next_through (Or.inr ⟨_, h, ⟨_, (List.append_assoc _ _ _).symm⟩, by simp⟩) .writing ?_
    simpa [Pipe.closeRead, Pipe.settled] using OutputLeft.writing
  | finished hd h =>
    simp only [clientStep, hangUp, hc, Option.some.injEq] at hs
    subst hs
    refine next_through (Or.inr ⟨_, h, ⟨_, rfl⟩, by simp⟩) hd.inputLeft ?_
    simpa [Pipe.closeRead, Pipe.settled, Pipe.unused] using OutputLeft.unused hd.not_writing
  | dropped hd hl =>
    obtain rfl := Option.some.inj ((leave_listening hl hc).symm.trans hs)
    exact next_through told_nothing hd.inputLeft (.unused hd.not_writing)
  | gone hl hd =>
    obtain rfl := Option.some.inj ((leave_listening hl hc).symm.trans hs)
    obtain ⟨rfl, hd⟩ | ⟨rfl, hd⟩ := hd
    · exact next_through told_nothing (.stopped ⟨i, _, List.prefix_rfl, hd⟩) (.unused (by simp))
    · exact next_through told_nothing (.failed ⟨i, _, List.prefix_rfl, hd⟩) (.unused (by simp))

theorem next_listen (h : Talk handle message i c d input output) (hc : clients i = c)
    (hs : clientStep message ⟨input, output, d, clients⟩ i (.listen i) = some s') :
    Next handle message i clients s' := by
  have hwrote : c = .wrote := by
    simp only [clientStep, hc] at hs
    cases c <;> simp at hs ⊢
  subst hwrote
  have hstep : output = .unused →
      s' = ⟨input, ⟨[.client i], [], [.client i], []⟩, d, Function.update clients i (.reading [])⟩ := by
    rintro rfl
    simp only [clientStep, hc, Pipe.openRead_unused] at hs
    split at hs
    · cases hs
    · exact (Option.some.inj hs).symm
  cases h with
  | asked hl h =>
    obtain ⟨⟩ := hl
    obtain rfl := hstep rfl
    exact next_on (by simp) (.asked .reading h)
  | taken hl =>
    obtain ⟨⟩ := hl
    obtain rfl := hstep rfl
    exact next_on (by simp) (.taken .reading)
  | answering hl h =>
    obtain ⟨⟩ := hl
    obtain rfl := hstep rfl
    exact next_on (by simp) (.answering .reading h)
  | dropped hd hl =>
    obtain ⟨⟩ := hl
    obtain rfl := hstep rfl
    exact next_on (by simp) (.dropped hd .reading)
  | gone hl hd =>
    obtain ⟨⟩ := hl
    obtain rfl := hstep rfl
    exact next_on (by simp) (.gone .reading hd)

theorem next_write {n : Nat} (h : Talk handle message i c d input output) (hc : clients i = c)
    (hs : clientStep message ⟨input, output, d, clients⟩ i (.write i n) = some s') :
    Next handle message i clients s' := by
  cases h with
  | queued hd hout => simp [clientStep, hc] at hs
  | asking h =>
    rename_i acc data rest
    simp only [clientStep, hc, List.not_mem_nil, false_or] at hs
    split at hs
    · cases hs
    · simp only [Pipe.write, List.isEmpty_cons, Bool.false_eq_true, if_false, Option.some.injEq] at hs
      subst hs
      refine next_on (by simp) (.asking ?_)
      rw [← h]
      simp [List.take_append_drop]
  | asked hl | taken hl | answering hl | dropped _ hl | gone hl => cases hl <;> simp [clientStep, hc] at hs
  | told | finished => simp [clientStep, hc] at hs

theorem next_finish (h : Talk handle message i c d input output) (hc : clients i = c)
    (hs : clientStep message ⟨input, output, d, clients⟩ i (.finish i) = some s') :
    Next handle message i clients s' := by
  cases h with
  | queued hd hout =>
    simp only [clientStep, hc] at hs
    split at hs <;> simp at hs
  | asking h =>
    rename_i acc data rest
    cases rest with
    | cons b rest => simp [clientStep, hc] at hs
    | nil =>
      simp only [clientStep, hc, List.not_mem_nil, if_false, Option.some.injEq] at hs
      subst hs
      refine next_on (by simp) ?_
      have hasked := @Talk.asked handle message i _ _ acc data .wrote (by simpa using h)
      simpa [Pipe.closeWrite, Pipe.settled] using hasked
  | asked hl | taken hl | answering hl | dropped _ hl | gone hl => cases hl <;> simp [clientStep, hc] at hs
  | told | finished => simp [clientStep, hc] at hs

/-- Nothing is heard before the daemon has the pipe open, too. -/
theorem hear_listening {n : Nat} (h : Listening i c output) (hc : clients i = c) :
    clientStep message ⟨input, output, d, clients⟩ i (.hear i n) = none := by
  cases h <;> simp [clientStep, hc]

theorem next_hear {n : Nat} (h : Talk handle message i c d input output) (hc : clients i = c)
    (hs : clientStep message ⟨input, output, d, clients⟩ i (.hear i n) = some s') :
    Next handle message i clients s' := by
  cases h with
  | queued | asking => simp [clientStep, hc] at hs
  | asked hl | taken hl | answering hl | dropped _ hl | gone hl =>
    rw [hear_listening hl hc] at hs
    cases hs
  | told h =>
    rename_i got data rest
    cases data with
    | nil => simp [clientStep, hc, Pipe.read] at hs
    | cons b data =>
      simp [clientStep, hc, Pipe.read] at hs
      subst hs
      refine next_on (by simp) (.told ?_)
      simpa using h
  | finished hd h =>
    rename_i got data
    cases data with
    | nil =>
      simp [clientStep, hc, Pipe.read, hangUp, setClient, Pipe.closeRead, Pipe.settled] at hs
      subst hs
      refine next_through (Or.inr ⟨_, h, ?_⟩) hd.inputLeft (.unused hd.not_writing)
      simp
    | cons b data =>
      simp [clientStep, hc, Pipe.read] at hs
      subst hs
      refine next_on (by simp) (.finished hd ?_)
      simpa using h

end

/-! ## Steps of the daemon -/

section
variable {i : Nat} {c : ClientState} {d : DaemonState} {input output : Pipe Party UInt8} {clients : Nat → ClientState}

/-- With a reply that nobody reads: the daemon finds nobody, or finds out. -/
theorem daemon_unheard (hin : InputLeft handle message d .unused) (hout : OutputLeft d output)
    (hd : d ≠ .opening) (hs : daemonStep handle ⟨input, output, d, clients⟩ a = some s') :
    s'.clients = clients ∧ s'.input = input ∧ InputLeft handle message s'.daemon .unused ∧
      OutputLeft s'.daemon s'.output := by
  cases hin with
  | opening => exact absurd rfl hd
  | stopped | failed => cases a <;> simp [daemonStep] at hs
  | sending =>
    obtain ⟨-⟩ := hout
    cases a with
    | daemonGivesUp =>
      obtain rfl : _ = s' := by simpa [daemonStep, Pipe.unused] using hs
      exact ⟨rfl, rfl, .opening, .unused (by simp)⟩
    | _ => simp [daemonStep, Pipe.tryOpenWrite, Pipe.unused] at hs
  | @writing rest =>
    cases hout with
    | unused h => exact absurd rfl (h rest)
    | @writing _ data =>
      cases a with
      | daemonWrites n =>
        simp only [daemonStep] at hs
        split at hs
        · cases hs
        · obtain rfl := Option.some.inj hs
          refine ⟨rfl, rfl, .opening, ?_⟩
          rw [Pipe.closeWrite_last]
          exact .unused (by simp)
      | daemonEnds =>
        simp only [daemonStep] at hs
        split at hs
        · obtain rfl := Option.some.inj hs
          refine ⟨rfl, rfl, .opening, ?_⟩
          rw [Pipe.closeWrite_last]
          exact .unused (by simp)
        · cases hs
      | _ => simp [daemonStep] at hs

/-- Between two clients. -/
theorem daemon_left (hin : InputLeft handle message d input) (hout : OutputLeft d output)
    (hs : daemonStep handle ⟨input, output, d, clients⟩ a = some s') :
    s'.clients = clients ∧ InputLeft handle message s'.daemon s'.input ∧ OutputLeft s'.daemon s'.output := by
  cases hin with
  | opening =>
    obtain ⟨-⟩ := hout
    cases a with
    | daemonOpens =>
      obtain rfl := Option.some.inj hs
      exact ⟨rfl, .waiting, .unused (by simp)⟩
    | _ => simp [daemonStep] at hs
  | sending =>
    obtain ⟨hclients, hinput, hleft, hout⟩ := @daemon_unheard handle message s' a _ _ _ _ .sending hout (by simp) hs
    exact ⟨hclients, hinput ▸ hleft, hout⟩
  | writing =>
    obtain ⟨hclients, hinput, hleft, hout⟩ := @daemon_unheard handle message s' a _ _ _ _ .writing hout (by simp) hs
    exact ⟨hclients, hinput ▸ hleft, hout⟩
  | stopped | failed => cases a <;> simp [daemonStep] at hs
  | waiting => cases a <;> simp [daemonStep] at hs
  | @left acc data h =>
    obtain ⟨-⟩ := hout
    cases a with
    | daemonReads n =>
      cases data with
      | nil =>
        obtain rfl := Option.some.inj hs
        exact ⟨rfl, .read (by simpa using h), .unused (by simp)⟩
      | cons b data =>
        obtain rfl := Option.some.inj hs
        refine ⟨rfl, .left ?_, .unused (by simp)⟩
        simpa using h
    | _ => simp [daemonStep] at hs
  | @read acc h =>
    obtain ⟨-⟩ := hout
    obtain ⟨k, hk⟩ := h
    cases a with
    | daemonServes =>
      simp only [daemonStep, Pipe.closeRead_last] at hs
      cases hserve : serve handle acc with
      | reply bytes =>
        rw [hserve] at hs
        obtain rfl := Option.some.inj hs
        exact ⟨rfl, .sending, .unused (by simp)⟩
      | stop =>
        rw [hserve] at hs
        obtain rfl := Option.some.inj hs
        exact ⟨rfl, .stopped ⟨k, acc, hk, hserve⟩, .unused (by simp)⟩
      | failed =>
        rw [hserve] at hs
        obtain rfl := Option.some.inj hs
        exact ⟨rfl, .failed ⟨k, acc, hk, hserve⟩, .unused (by simp)⟩
    | _ => simp [daemonStep] at hs

/-- While it is the turn of a client. -/
theorem daemon_talk (h : Talk handle message i c d input output)
    (hs : daemonStep handle ⟨input, output, d, clients⟩ a = some s') :
    s'.clients = clients ∧ Talk handle message i c s'.daemon s'.input s'.output := by
  cases h with
  | queued hd hout =>
    by_cases hopening : d = .opening
    · subst hopening
      obtain ⟨-⟩ := hout
      cases a with
      | daemonOpens =>
        obtain rfl := Option.some.inj hs
        exact ⟨rfl, .asking rfl⟩
      | _ => simp [daemonStep] at hs
    · obtain ⟨hclients, hinput, hleft, hout⟩ := daemon_unheard hd hout hopening hs
      exact ⟨hclients, hinput ▸ .queued hleft hout⟩
  | @asking acc data rest h =>
    cases a with
    | daemonReads n =>
      cases data with
      | nil => simp [daemonStep, Pipe.read] at hs
      | cons b data =>
        obtain rfl := Option.some.inj hs
        refine ⟨rfl, .asking ?_⟩
        simpa using h
    | _ => simp [daemonStep] at hs
  | @asked _ _ acc data hl h =>
    cases a with
    | daemonReads n =>
      cases data with
      | nil =>
        obtain rfl := Option.some.inj hs
        obtain rfl : acc = message i := by simpa using h
        exact ⟨rfl, .taken hl⟩
      | cons b data =>
        obtain rfl := Option.some.inj hs
        refine ⟨rfl, .asked hl ?_⟩
        simpa using h
    | _ => simp [daemonStep] at hs
  | taken hl =>
    cases a with
    | daemonServes =>
      simp only [daemonStep, Pipe.closeRead_last] at hs
      cases hserve : serve handle (message i) with
      | reply bytes =>
        rw [hserve] at hs
        obtain rfl := Option.some.inj hs
        exact ⟨rfl, .answering hl hserve⟩
      | stop =>
        rw [hserve] at hs
        obtain rfl := Option.some.inj hs
        exact ⟨rfl, .gone hl (Or.inl ⟨rfl, hserve⟩)⟩
      | failed =>
        rw [hserve] at hs
        obtain rfl := Option.some.inj hs
        exact ⟨rfl, .gone hl (Or.inr ⟨rfl, hserve⟩)⟩
    | _ => simp [daemonStep] at hs
  | answering hl h =>
    cases a with
    | daemonTries =>
      cases hl with
      | wrote => simp [daemonStep, Pipe.tryOpenWrite, Pipe.unused] at hs
      | reading =>
        obtain rfl := Option.some.inj hs
        exact ⟨rfl, .told h⟩
    | daemonGivesUp =>
      cases hl with
      | wrote =>
        obtain rfl := Option.some.inj hs
        exact ⟨rfl, .dropped .opening .wrote⟩
      | reading => simp [daemonStep] at hs
    | _ => simp [daemonStep] at hs
  | @told got data rest h =>
    cases a with
    | daemonWrites n =>
      simp only [daemonStep] at hs
      split at hs
      · cases hs
      · obtain rfl := Option.some.inj hs
        refine ⟨rfl, .told ?_⟩
        simpa [List.append_assoc] using h
    | daemonEnds =>
      simp only [daemonStep] at hs
      split at hs
      · rename_i hrest
        obtain rfl : rest = [] := by simpa using hrest
        obtain rfl := Option.some.inj hs
        refine ⟨rfl, .finished .opening ?_⟩
        simpa using h
      · cases hs
    | _ => simp [daemonStep] at hs
  | finished hd h =>
    cases hd with
    | opening =>
      cases a with
      | daemonOpens =>
        obtain rfl := Option.some.inj hs
        exact ⟨rfl, .finished .reading h⟩
      | _ => simp [daemonStep] at hs
    | reading => cases a <;> simp [daemonStep] at hs
  | dropped hd hl =>
    cases hd with
    | opening =>
      cases a with
      | daemonOpens =>
        obtain rfl := Option.some.inj hs
        exact ⟨rfl, .dropped .reading hl⟩
      | _ => simp [daemonStep] at hs
    | reading => cases a <;> simp [daemonStep] at hs
  | gone hl hd =>
    obtain ⟨rfl, -⟩ | ⟨rfl, -⟩ := hd
    all_goals cases a <;> simp [daemonStep] at hs

end

/-! ## Runs -/

section
variable {i : Nat}

theorem through_of_not_enter (h : Through (s.clients i)) (hne : a ≠ .enter i) (hi : client? a = some i) :
    s.clientStep message i a = none := by
  obtain h | ⟨got, whole, h⟩ := h
  all_goals cases a <;> simp_all [clientStep, client?]

theorem Talk.not_through {c : ClientState} {d : DaemonState} {input output : Pipe Party UInt8}
    (h : Talk handle message i c d input output) : ¬ Through c := by
  cases h with
  | asked hl | taken hl | answering hl | dropped _ hl | gone hl => cases hl <;> simp [Through]
  | _ => simp [Through]

/-- A client begins. -/
theorem next_enter {d : DaemonState} {input output : Pipe Party UInt8} {clients : Nat → ClientState}
    (hin : InputLeft handle message d input) (hout : OutputLeft d output) (hfree : Free ⟨input, output, d, clients⟩)
    (hs : clientStep message ⟨input, output, d, clients⟩ i (.enter i) = some s') :
    Next handle message i clients s' := by
  simp only [clientStep] at hs
  split at hs
  · split at hs
    · cases hs
    · rename_i hgone
      obtain rfl := Option.some.inj hs
      have hqueued : ∀ {d}, InputLeft handle message d .unused → OutputLeft d output → Next handle message i clients
          ⟨Pipe.unused.openWrite (.client i), output, d, Function.update clients i (.writing (message i))⟩ :=
        fun hin hout => next_on (by simp) (.queued hin hout)
      cases hin with
      | opening => exact hqueued .opening hout
      | sending => exact hqueued .sending hout
      | writing => exact hqueued .writing hout
      | stopped h => exact absurd rfl hgone
      | failed h => exact hqueued (.failed h) hout
      | waiting =>
        obtain ⟨-⟩ := hout
        exact next_on (by simp) (.asking rfl)
      | @left acc data h =>
        obtain ⟨rfl, rfl⟩ : acc = [] ∧ data = [] := hfree.2
        obtain ⟨-⟩ := hout
        exact next_on (by simp) (.asking rfl)
      | read => exact absurd hfree.2 (by simp)
  · cases hs

theorem Next.orderly {clients : Nat → ClientState} (h : Next handle message i clients s')
    (htold : ∀ j, Told handle message j (clients j)) (hthrough : ∀ j ≠ i, Through (clients j)) :
    Orderly handle message s' := by
  obtain ⟨c, hclients, hc, hnext⟩ := h
  have hothers : ∀ j ≠ i, s'.clients j = clients j := fun j hj => by rw [hclients, Function.update_of_ne hj]
  have hself : s'.clients i = c := by rw [hclients, Function.update_self]
  refine ⟨fun j => ?_, ?_⟩
  · by_cases hj : j = i
    · rw [hj, hself]
      exact hc
    · rw [hothers j hj]
      exact htold j
  · rcases hnext with htalk | ⟨hdone, hin, hout⟩
    · exact Or.inr ⟨i, fun j hj => hothers j hj ▸ hthrough j hj, hself ▸ htalk⟩
    · refine Or.inl ⟨fun j => ?_, hin, hout⟩
      by_cases hj : j = i
      · rw [hj, hself]
        exact hdone
      · rw [hothers j hj]
        exact hthrough j hj

/-- **A step keeps order**, as long as the clients take turns. -/
theorem Orderly.step (h : Orderly handle message s) (hturn : ∀ i, a = .enter i → s.Free)
    (hs : s.step handle message a = some s') : Orderly handle message s' := by
  obtain ⟨input, output, d, clients⟩ := s
  unfold Exchange.step at hs
  cases hi : client? a with
  | none =>
    rw [hi] at hs
    obtain ⟨hthrough, hin, hout⟩ | ⟨i, hthrough, htalk⟩ := h.turn
    · obtain ⟨hclients, hin, hout⟩ := daemon_left hin hout hs
      exact ⟨hclients ▸ h.told, Or.inl ⟨hclients ▸ hthrough, hin, hout⟩⟩
    · obtain ⟨hclients, htalk⟩ := daemon_talk htalk hs
      exact ⟨hclients ▸ h.told, Or.inr ⟨i, hclients ▸ hthrough, hclients ▸ htalk⟩⟩
  | some i =>
    rw [hi] at hs
    by_cases henter : a = .enter i
    · subst henter
      have hfree := hturn i rfl
      obtain ⟨hthrough, hin, hout⟩ | ⟨j, -, htalk⟩ := h.turn
      · exact (next_enter hin hout hfree hs).orderly h.told fun j _ => hthrough j
      · exact absurd (hfree.1 j) htalk.not_through
    · have hno : ¬ Through (clients i) := fun hthrough => by
        have hnone := @through_of_not_enter message ⟨input, output, d, clients⟩ a i hthrough henter hi
        dsimp only at hs
        rw [hnone] at hs
        cases hs
      obtain ⟨hthrough, -, -⟩ | ⟨j, hthrough, htalk⟩ := h.turn
      · exact absurd (hthrough i) hno
      · obtain rfl : i = j := by
          by_contra hne
          exact hno (hthrough i hne)
        refine Next.orderly ?_ h.told hthrough
        cases a with
        | enter k =>
          obtain rfl : k = i := Option.some.inj hi
          exact absurd rfl henter
        | write k n =>
          obtain rfl : k = i := Option.some.inj hi
          exact next_write htalk rfl hs
        | finish k =>
          obtain rfl : k = i := Option.some.inj hi
          exact next_finish htalk rfl hs
        | listen k =>
          obtain rfl : k = i := Option.some.inj hi
          exact next_listen htalk rfl hs
        | hear k n =>
          obtain rfl : k = i := Option.some.inj hi
          exact next_hear htalk rfl hs
        | leave k =>
          obtain rfl : k = i := Option.some.inj hi
          exact next_leave htalk rfl hs
        | _ => cases hi

theorem InTurn.orderly (h : InTurn handle message s) : Orderly handle message s := by
  induction h with
  | start => exact orderly_start
  | step _ hturn hs ih => exact ih.step hturn hs

end

/-! ## Being told everything -/

/-- Steps one after the other. -/
def run (handle : List Str → Except Error Str) (message : Nat → List UInt8) (s : Exchange) (as : List Act) :
    Option Exchange := as.foldlM (step handle message) s

theorem run_cons {as : List Act} (h : s.step handle message a = some s') :
    run handle message s (a :: as) = run handle message s' as := by
  unfold run
  rw [List.foldlM_cons, h]
  rfl

/-- The client hears the rest, and then the end. -/
theorem heard_of_finished {i : Nat} {got data : List UInt8} {input : Pipe Party UInt8} {d : DaemonState}
    {clients : Nat → ClientState} (hc : clients i = .reading got) : ∃ as s', (∀ a ∈ as, ∃ n, a = Act.hear i n) ∧
      run handle message ⟨input, ⟨[.client i], [], [], data⟩, d, clients⟩ as = some s' ∧
      s'.clients i = .done (got ++ data) true := by
  have hend : ∀ {got : List UInt8} {clients : Nat → ClientState}, clients i = .reading got →
      ∃ s', step handle message ⟨input, ⟨[.client i], [], [], []⟩, d, clients⟩ (.hear i 0) = some s' ∧
        s'.clients i = .done got true := by
    intro got clients hc
    simp [step, client?, clientStep, hc, Pipe.read, hangUp, setClient]
  cases data with
  | nil =>
    obtain ⟨s', hs, hdone⟩ := hend hc
    refine ⟨[.hear i 0], s', by simp, run_cons hs, ?_⟩
    rw [hdone, List.append_nil]
  | cons b data =>
    obtain ⟨s', hs, hdone⟩ := @hend (got ++ b :: data) (Function.update clients i (.reading (got ++ b :: data)))
      (Function.update_self ..)
    refine ⟨[.hear i data.length, .hear i 0], s', by simp, ?_, hdone⟩
    have hfirst : step handle message ⟨input, ⟨[.client i], [], [], b :: data⟩, d, clients⟩ (.hear i data.length) =
        some ⟨input, ⟨[.client i], [], [], []⟩, d, Function.update clients i (.reading (got ++ b :: data))⟩ := by
      simp [step, client?, clientStep, hc, Pipe.read, setClient]
    rw [run_cons hfirst]
    exact run_cons hs

/-- The daemon writes the rest, and the client hears it. -/
theorem heard_of_told {i : Nat} {got data rest : List UInt8} {clients : Nat → ClientState}
    (hc : clients i = .reading got) : ∃ as s', (∀ a ∈ as, client? a = none ∨ ∃ n, a = .hear i n) ∧
      run handle message ⟨.unused, ⟨[.client i], [.daemon], [], data⟩, .writing rest, clients⟩ as = some s' ∧
      s'.clients i = .done (got ++ data ++ rest) true := by
  have hends : ∀ data,
      step handle message ⟨.unused, ⟨[.client i], [.daemon], [], data⟩, .writing [], clients⟩ .daemonEnds =
        some ⟨.unused, ⟨[.client i], [], [], data⟩, .opening, clients⟩ := fun data => by
    simp [step, client?, daemonStep, Pipe.closeWrite, Pipe.settled]
  cases rest with
  | nil =>
    obtain ⟨as, s', has, hrun, hdone⟩ := @heard_of_finished handle message i got data .unused .opening clients hc
    refine ⟨.daemonEnds :: as, s', ?_, ?_, by rw [hdone, List.append_nil]⟩
    · exact List.forall_mem_cons.2 ⟨Or.inl rfl, fun a ha => Or.inr (has a ha)⟩
    · rw [run_cons (hends data), hrun]
  | cons b rest =>
    obtain ⟨as, s', has, hrun, hdone⟩ := @heard_of_finished handle message i got (data ++ b :: rest) .unused .opening
      clients hc
    have hwrites : step handle message ⟨.unused, ⟨[.client i], [.daemon], [], data⟩, .writing (b :: rest), clients⟩
        (.daemonWrites rest.length) =
        some ⟨.unused, ⟨[.client i], [.daemon], [], data ++ b :: rest⟩, .writing [], clients⟩ := by
      simp [step, client?, daemonStep, Pipe.write]
    refine ⟨.daemonWrites rest.length :: .daemonEnds :: as, s', ?_, ?_, by rw [hdone, List.append_assoc]⟩
    · exact List.forall_mem_cons.2 ⟨Or.inl rfl, List.forall_mem_cons.2 ⟨Or.inl rfl, fun a ha => Or.inr (has a ha)⟩⟩
    · rw [run_cons hwrites, run_cons (hends _), hrun]

/-! ## Clients that take turns -/

/-- The daemon has ended for a reason. -/
def Ended (handle : List Str → Except Error Str) (message : Nat → List UInt8) (d : DaemonState) : Prop :=
  (d = .stopped → ∃ i w, w <+: message i ∧ serve handle w = .stop) ∧
    (d = .failed → ∃ i w, w <+: message i ∧ serve handle w = .failed)

theorem InputLeft.ended {d : DaemonState} {input : Pipe Party UInt8} (h : InputLeft handle message d input) :
    Ended handle message d := by
  cases h with
  | stopped h => exact ⟨fun _ => h, by simp⟩
  | failed h => exact ⟨by simp, fun _ => h⟩
  | _ => exact ⟨by simp, by simp⟩

theorem Talk.ended {i : Nat} {c : ClientState} {d : DaemonState} {input output : Pipe Party UInt8}
    (h : Talk handle message i c d input output) : Ended handle message d := by
  cases h with
  | queued hd => exact hd.ended
  | gone _ hd =>
    obtain ⟨rfl, hserve⟩ | ⟨rfl, hserve⟩ := hd
    · exact ⟨fun _ => ⟨i, _, List.prefix_rfl, hserve⟩, by simp⟩
    · exact ⟨by simp, fun _ => ⟨i, _, List.prefix_rfl, hserve⟩⟩
  | finished hd | dropped hd => exact (hd.inputLeft : InputLeft handle message _ _).ended
  | _ => exact ⟨by simp, by simp⟩

/-- **The app-daemon.** In every run in which clients take turns, whatever the daemon and they do when, and
whoever of them is killed: what a client has been told is a piece of the reply to what it has asked itself, and
all of it when it has seen the end. Once a client that waits for the reply has got the pipe open, it is told all
of it, if it stays. The daemon only stops for a client that has said so, and only fails over what is no text. -/
theorem daemon_in_turn (h : InTurn handle message s) :
    (∀ i got whole, s.clients i = .done got whole → (got = [] ∧ whole = false) ∨
      ∃ reply, serve handle (message i) = .reply reply ∧ got <+: reply ∧ (whole = true → got = reply)) ∧
    (∀ i got, s.clients i = .reading got → .client i ∉ s.output.waiting → ∃ reply rest,
      serve handle (message i) = .reply reply ∧ reply = got ++ rest ∧ ∃ as s',
        (∀ a ∈ as, client? a = none ∨ ∃ n, a = .hear i n) ∧ s.run handle message as = some s' ∧
        s'.clients i = .done reply true) ∧
    (s.daemon = .stopped → ∃ i w, w <+: message i ∧ serve handle w = .stop) ∧
    (s.daemon = .failed → ∃ i w, w <+: message i ∧ serve handle w = .failed) := by
  have horderly := h.orderly
  obtain ⟨input, output, d, clients⟩ := s
  refine ⟨fun i got whole hdone => ?_, fun i got hreading hopen => ?_, fun hd => ?_, fun hd => ?_⟩
  · have htold := horderly.told i
    rw [hdone] at htold
    exact htold
  · dsimp only at hreading hopen
    obtain ⟨hthrough, -, -⟩ | ⟨j, hthrough, htalk⟩ := horderly.turn
    · have hi := hthrough i
      dsimp only at hi
      rw [hreading] at hi
      exact absurd hi (by simp [Through])
    · obtain rfl : i = j := by
        by_contra hne
        have hi := hthrough i hne
        dsimp only at hi
        rw [hreading] at hi
        exact absurd hi (by simp [Through])
      dsimp only at htalk
      rw [hreading] at htalk
      cases htalk with
      | asked hl | taken hl | answering hl | dropped _ hl | gone hl =>
        cases hl
        exact absurd (List.mem_cons_self ..) hopen
      | @told got data rest hserve =>
        exact ⟨_, data ++ rest, hserve, List.append_assoc .., heard_of_told hreading⟩
      | @finished d input got data hd hserve =>
        obtain ⟨as, s', has, hrun, hdone⟩ := @heard_of_finished handle message i got data input d clients hreading
        exact ⟨_, data, hserve, rfl, as, s', fun a ha => Or.inr (has a ha), hrun, hdone⟩
  · obtain ⟨-, hin, -⟩ | ⟨j, -, htalk⟩ := horderly.turn
    · exact hin.ended.1 hd
    · exact htalk.ended.1 hd
  · obtain ⟨-, hin, -⟩ | ⟨j, -, htalk⟩ := horderly.turn
    · exact hin.ended.2 hd
    · exact htalk.ended.2 hd

/-! ## One client -/

theorem inTurn_run {as : List Act} (h : InTurn handle message s) (has : ∀ a ∈ as, ∀ i, a ≠ .enter i)
    (hrun : run handle message s as = some s') : InTurn handle message s' := by
  induction as generalizing s with
  | nil => exact Option.some.inj hrun ▸ h
  | cons a as ih =>
    rw [List.forall_mem_cons] at has
    unfold run at hrun
    rw [List.foldlM_cons] at hrun
    obtain ⟨t, ht, hrun⟩ := Option.bind_eq_some_iff.1 hrun
    exact ih (h.step (fun i hi => absurd hi (has.1 i)) ht) has.2 hrun

/-- A first client, up to the moment in which the daemon has found it at the reply pipe. -/
theorem inTurn_told {reply : List UInt8} (hserve : serve handle (message 0) = .reply reply) (hne : message 0 ≠ []) :
    InTurn handle message ⟨.unused, ⟨[.client 0], [.daemon], [], []⟩, .writing reply,
      Function.update start.clients 0 (.reading [])⟩ := by
  have hfree : start.Free := ⟨fun _ => Or.inl rfl, trivial⟩
  have henter : step handle message start (.enter 0) =
      some ⟨⟨[], [.client 0], [.client 0], []⟩, .unused, .opening,
        Function.update start.clients 0 (.writing (message 0))⟩ := rfl
  obtain ⟨b, rest, hmessage⟩ := List.exists_cons_of_ne_nil hne
  have hasked : run handle message ⟨⟨[], [.client 0], [.client 0], []⟩, .unused, .opening,
        Function.update start.clients 0 (.writing (message 0))⟩
      [.daemonOpens, .write 0 rest.length, .finish 0, .listen 0, .daemonReads rest.length, .daemonReads 0] =
      some ⟨⟨[.daemon], [], [], []⟩, ⟨[.client 0], [], [.client 0], []⟩, .read (message 0),
        Function.update start.clients 0 (.reading [])⟩ := by
    simp [run, step, client?, clientStep, daemonStep, setClient, DaemonState.gone, hmessage, Pipe.unused, Pipe.openRead,
      Pipe.write, Pipe.read, Pipe.closeWrite, Pipe.settled]
  have hserved : run handle message ⟨⟨[.daemon], [], [], []⟩, ⟨[.client 0], [], [.client 0], []⟩, .read (message 0),
        Function.update start.clients 0 (.reading [])⟩ [.daemonServes, .daemonTries] =
      some ⟨.unused, ⟨[.client 0], [.daemon], [], []⟩, .writing reply,
        Function.update start.clients 0 (.reading [])⟩ := by
    simp [run, step, client?, daemonStep, hserve, Pipe.closeRead_last, Pipe.tryOpenWrite, Pipe.openWrite]
  have hfirst := InTurn.start.step (fun _ _ => hfree) henter
  exact inTurn_run (inTurn_run hfirst (by simp) hasked) (by simp) hserved

end

/-- The words of no command. -/
def noHandle (_ : List Str) : Except Error Str := .error (.invalidArg "not an app command".toList)

theorem serve_utf8 (handle : List Str → Except Error Str) (line : Str) : serve handle (utf8 line) =
    match answer handle (request (decode line)) with
    | none => .stop
    | some reply => .reply (utf8 (sent reply)) := by
  unfold serve
  rw [decodeUtf8_utf8]

theorem serve_ping : serve noHandle (utf8 (wire ["ping".toList])) = .reply (utf8 (sent "pong".toList)) := by
  have hrequest : request (decode (wire ["ping".toList])) = .ping := by decide
  rw [serve_utf8, hrequest]
  rfl

/-- A first client, and what it is told. -/
theorem daemon_in_turn_ping : ∃ s, InTurn noHandle (fun _ => utf8 (wire ["ping".toList])) s ∧
    ∃ reply as s', serve noHandle (utf8 (wire ["ping".toList])) = .reply reply ∧
      s.run noHandle (fun _ => utf8 (wire ["ping".toList])) as = some s' ∧ s'.clients 0 = .done reply true := by
  have hin := @inTurn_told noHandle (fun _ => utf8 (wire ["ping".toList])) _ serve_ping (by decide)
  obtain ⟨reply, rest, hserve, -, as, s', -, hrun, hdone⟩ := (daemon_in_turn hin).2.1 0 [] rfl (by simp)
  exact ⟨_, hin, reply, as, s', hserve, hrun, hdone⟩

end Exchange

end Wsmr
