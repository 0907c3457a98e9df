import Wsmr.Filter
import Wsmr.Error

/-!
# Values of desktop entries (`src/app/field.rs`)
-/

namespace Wsmr

open Text

/-- What `{:?}` makes of a character between `quote`s, as far as it can be printed otherwise. -/
def debugEscape (quote c : Char) : Str :=
  if c = '\x00' then "\\0".toList
  else if c = '\t' then "\\t".toList
  else if c = '\n' then "\\n".toList
  else if c = '\r' then "\\r".toList
  else if c = quote || c = '\\' then ['\\', c]
  else [c]

def debugChar (c : Char) : Str := '\'' :: debugEscape '\'' c ++ ['\'']

def debugStr (s : Str) : Str := '"' :: s.flatMap (debugEscape '"') ++ ['"']

/-! ## Escapes -/

def unescapeChar (c : Char) : Char :=
  if c = 's' then ' ' else if c = 'n' then '\n' else if c = 't' then '\t' else if c = 'r' then '\r' else c

/-- The loop of `expand_str`; `escaped` right after a backslash. -/
def expandChars : Bool → Str → Str
  | _, [] => []
  | true, c :: s => unescapeChar c :: expandChars false s
  | false, c :: s => if c = '\\' then expandChars true s else c :: expandChars false s

def expandStr (value : Str) : Str := if value.contains '\\' then expandChars false value else value

/-! ## Tokens -/

/-- The variables of the loop. -/
structure ExecLexer where
  cmd : List Str
  arg : Str
  quoted : Bool
  inSpace : Bool
  escaped : Bool

def isReserved (c : Char) : Bool := "\t\n'\\><~|&;$*?#()`".toList.contains c

def tokenizeStep (s : ExecLexer) (ch : Char) : Except Error ExecLexer :=
  if s.inSpace && isWhitespace ch then .ok s
  else if s.quoted then
    if s.escaped then .ok { s with inSpace := false, arg := s.arg ++ [ch], escaped := false }
    else if ch = '"' then .ok { s with inSpace := false, quoted := false }
    else if ch = '\\' then .ok { s with inSpace := false, escaped := true }
    else if ch = '`' || ch = '$' then
      .error (.invalidArg ("unescaped ".toList ++ debugChar ch ++ " in Exec".toList))
    else .ok { s with inSpace := false, arg := s.arg ++ [ch] }
  else if ch = '"' then .ok { s with inSpace := false, quoted := true }
  else if isWhitespace ch then .ok { s with inSpace := true, cmd := s.cmd ++ [s.arg], arg := [] }
  else if isReserved ch then .error (.invalidArg ("unquoted ".toList ++ debugChar ch ++ " in Exec".toList))
  else .ok { s with inSpace := false, arg := s.arg ++ [ch] }

def tokenizeExec (value : Str) : Except Error (List Str) := do
  let s ← (trim value).foldlM tokenizeStep ⟨[], [], false, false, false⟩
  return s.cmd ++ [s.arg]

/-! ## URLs -/

/-- `ALPHA *(ALPHA / DIGIT / "+" / "-" / ".") ":"` -/
def hasUriScheme (s : Str) : Bool :=
  match s with
  | [] => false
  | first :: rest =>
    isAsciiAlphabetic first &&
      (rest.dropWhile fun c => isAsciiAlphanumeric c || ['+', '-', '.'].contains c).head? = some ':'

def upperHexDigit (n : Nat) : Char := if n < 10 then Char.ofNat (48 + n) else Char.ofNat (55 + n)

/-- `%XX` for every byte that is not unreserved and no `/`. -/
def percentEncode (arg : Str) : Str :=
  (utf8 arg).flatMap fun b =>
    let c := Char.ofNat b.toNat
    if isAsciiAlphanumeric c || ['_', '.', '~', '-', '/'].contains c then [c]
    else ['%', upperHexDigit (b.toNat / 16), upperHexDigit (b.toNat % 16)]

def path2url (arg : Str) : Str := if hasUriScheme arg then arg else "file://".toList ++ percentEncode arg

/-! ## Fields -/

structure EntryCtx where
  name : Str
  icon : Str
  filename : Str

inductive GenArgs where
  | single (cmdline : List Str)
  | multi (cmdlines : List (List Str))
  deriving DecidableEq, Repr

def GenArgs.cmdlines : GenArgs → List (List Str)
  | .single c => [c]
  | .multi cs => cs

/-- `%<letter>`, where `%%` is an escape. -/
def countFields : Str → Nat
  | [] => 0
  | [_] => 0
  | c :: d :: s =>
    if c = '%' && d = '%' then countFields s
    else if c = '%' && isAsciiAlphabetic d then countFields s + 1
    else countFields (d :: s)

def containsStr (pat s : Str) : Bool := (splitFirst pat s).isSome

def hasDeprecated (s : Str) : Bool :=
  ["%d".toList, "%D".toList, "%n".toList, "%N".toList, "%v".toList, "%m".toList].any fun f => containsStr f s

/-- The variables of the loop of `gen_entry_args`. -/
structure FieldState where
  out : List Str
  encounteredFu : Option Str
  fuIdx : Option Nat

def guardConflict (prev : Option Str) (tok : Str) : Except Error Unit :=
  match prev with
  | some p =>
    .error (.invalidArg ("conflicting Exec field args: ".toList ++ debugStr p ++ ", ".toList ++ debugStr tok))
  | none => .ok ()

/-- `%f` or `%u` in a token; with more than one argument it is left for the instances. -/
def oneArg (field : Str) (convert : Str → Str) (args : List Str) (s : FieldState) (tok : Str) :
    Except Error FieldState := do
  guardConflict s.encounteredFu tok
  let out :=
    match args with
    | [] => s.out
    | [a] => s.out ++ [replace field (convert a) tok]
    | _ => s.out ++ [tok]
  return ⟨out, some tok, some s.out.length⟩

/-- A token that is `%F` or `%U`. -/
def allArgs (convert : Str → Str) (args : List Str) (s : FieldState) (tok : Str) : Except Error FieldState := do
  guardConflict s.encounteredFu tok
  return { s with out := s.out ++ args.map convert, encounteredFu := some tok }

def expandToken (args : List Str) (ctx : EntryCtx) (s : FieldState) (tok : Str) : Except Error FieldState :=
  if countFields tok > 1 then
    .error (.invalidArg ("more than one % field in argument: ".toList ++ debugStr tok))
  else if containsStr "%%".toList tok then .ok { s with out := s.out ++ [replace "%%".toList "%".toList tok] }
  else if hasDeprecated tok then .ok s
  else if containsStr "%f".toList tok then oneArg "%f".toList id args s tok
  else if tok = "%F".toList then allArgs id args s tok
  else if containsStr "%F".toList tok then .error (.invalidArg ("\"%F\" inside argument: ".toList ++ debugStr tok))
  else if containsStr "%u".toList tok then oneArg "%u".toList path2url args s tok
  else if tok = "%U".toList then allArgs path2url args s tok
  else if containsStr "%U".toList tok then .error (.invalidArg ("\"%U\" inside argument: ".toList ++ debugStr tok))
  else if tok = "%c".toList then .ok { s with out := s.out ++ [ctx.name] }
  else if tok = "%k".toList then .ok { s with out := s.out ++ [ctx.filename] }
  else if tok = "%i".toList then
    .ok (if ctx.icon = [] then s else { s with out := s.out ++ ["--icon".toList, ctx.icon] })
  else .ok { s with out := s.out ++ [tok] }

def genEntryArgs (exec args : List Str) (ctx : EntryCtx) : Except Error GenArgs := do
  let some cmd := exec.head? | throw (.invalidArg "empty Exec".toList)
  let s ← (exec.drop 1).foldlM (expandToken args ctx) ⟨[], none, none⟩
  if !args.isEmpty && s.encounteredFu.isNone then
    throw (.invalidArg "entry does not support arguments".toList)
  match s.encounteredFu, s.fuIdx with
  | some fu, some idx =>
    if args.length > 1 && (fu = "%f".toList || fu = "%u".toList) then
      return .multi (args.map fun a =>
        cmd :: s.out.modify idx (replace fu (if fu = "%u".toList then path2url a else a)))
    else return .single (cmd :: s.out)
  | _, _ => return .single (cmd :: s.out)

theorem cmdlines_genEntryArgs {exec args : List Str} {ctx : EntryCtx} {gen : GenArgs}
    (h : genEntryArgs exec args ctx = .ok gen) : gen.cmdlines ≠ [] := by
  cases gen with
  | single c => exact List.cons_ne_nil _ _
  | multi cs =>
    unfold genEntryArgs at h
    simp only [bind, Except.bind, throw, throwThe, MonadExceptOf.throw, pure, Except.pure] at h
    split at h
    · split at h
      · cases h
      split at h
      · cases h
      split at h
      · split at h
        · rename_i hmany
          obtain rfl := GenArgs.multi.inj (Except.ok.inj h)
          have hlen : 1 < args.length := by simpa using (Bool.and_eq_true_iff.1 hmany).1
          intro hnil
          rw [List.map_eq_nil_iff.1 hnil] at hlen
          simp at hlen
        · cases h
      · cases h
    · cases h

end Wsmr
