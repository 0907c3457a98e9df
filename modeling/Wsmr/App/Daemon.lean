import Wsmr.App.Launch
import Wsmr.Units.Templates

/-!
# The app-daemon (`src/app/daemon.rs`)

A client writes its words with a NUL after each. The daemon splits them again, and leaves out what is
empty: so the words get through when none of them is (`decoded_iff`).
-/

namespace Wsmr

open Text

/-- What a client writes. -/
def wire (argv : List Str) : Str := argv.flatMap (· ++ ['\x00'])

/-- The words of a request, in the loop of `run`. -/
def decode (line : Str) : List Str := (line.splitOn '\x00').filter (· ≠ [])

inductive Request where
  | noArgs
  | stop
  | ping
  /-- Handed to `handle_app`. -/
  | app (args : List Str)
  | invalid (args : List Str)
  deriving DecidableEq, Repr

def request (args : List Str) : Request :=
  match args.head? with
  | none => .noArgs
  | some cmd =>
    if cmd = "stop".toList then .stop
    else if cmd = "ping".toList then .ping
    else if cmd = "app".toList then .app args
    else .invalid args

def shquote (s : Str) : Str := shlexJoin [s]

/-- What `handle_app` makes of command lines. -/
def appReply (argvs : List (List Str)) : Str :=
  match argvs with
  | [argv] => "exec ".toList ++ shlexJoin argv
  | _ => List.intercalate " ".toList (argvs.map (fun a => shlexJoin a ++ " &".toList) ++ ["wait".toList])

/-- `cli` is the parser of the command line: the text of a usage error, or the options of `app`, or none
for another command. -/
def handleApp (cli : List Str → Except Str (Option AppOpts)) (resolve : AppOpts → Except Error (List (List Str)))
    (args : List Str) : Except Error Str :=
  match cli ("wsmr".toList :: args) with
  | .error e => .error (.invalidArg ("Invalid arguments: ".toList ++ e))
  | .ok none => .error (.invalidArg "not an app command".toList)
  | .ok (some opts) => (resolve opts).map appReply

/-- The reply to a request; `stop` has none, and ends the loop. -/
def answer (handle : List Str → Except Error Str) : Request → Option Str
  | .noArgs => some "error 'No args given!' 2".toList
  | .stop => none
  | .ping => some "pong".toList
  | .app args =>
    match handle args with
    | .ok out => some out
    | .error e => some ("error ".toList ++ shquote ("Error: ".toList ++ e.toStr) ++ " 1".toList)
  | .invalid args => some ("error ".toList ++
      shquote ("Invalid arguments: ".toList ++ List.intercalate " ".toList args) ++ " 2".toList)

/-! ## Decoding -/

theorem decode_wire {argv : List Str} (h : ∀ w ∈ argv, '\x00' ∉ w) : decode (wire argv) = argv.filter (· ≠ []) := by
  unfold decode wire
  rw [splitOn_terminated h, List.filter_append]
  simp

/-- **The daemon** is handed the words of a client exactly when none of them is empty. -/
theorem decoded_iff {args : List Str} (h : ∀ w ∈ args, '\x00' ∉ w) :
    request (decode (wire ("app".toList :: args))) = .app ("app".toList :: args) ↔ [] ∉ args := by
  have happ : "app".toList ≠ "stop".toList ∧ "app".toList ≠ "ping".toList ∧
      '\x00' ∉ "app".toList := by decide
  obtain ⟨hstop, hping, hnul⟩ := happ
  have hrequest : ∀ args, request ("app".toList :: args) = .app ("app".toList :: args) := fun args => by
    unfold request
    rw [List.head?_cons]
    dsimp only
    rw [if_neg hstop, if_neg hping, if_pos rfl]
  rw [decode_wire (List.forall_mem_cons.2 ⟨hnul, h⟩), List.filter_cons_of_pos (by simp), hrequest,
    Request.app.injEq, List.cons.injEq, and_iff_right rfl, List.filter_eq_self]
  constructor
  · intro hall hmem
    simpa using hall [] hmem
  · intro hempty w hw
    have hw' : w ≠ [] := fun he => hempty (he ▸ hw)
    simpa using hw'

theorem decoded_iff_sleep :
    request (decode (wire ["app".toList, "--".toList, "sleep".toList, "600".toList])) =
      .app ["app".toList, "--".toList, "sleep".toList, "600".toList] :=
  (decoded_iff (by decide)).2 (by decide)

/-- `app -- printf '' x` loses the empty word. -/
theorem empty_word_lost :
    request (decode (wire ["app".toList, "--".toList, "printf".toList, [], "x".toList])) ≠
      .app ["app".toList, "--".toList, "printf".toList, [], "x".toList] := by decide

end Wsmr
