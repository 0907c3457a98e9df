import Wsmr.Comp.Resolve

/-!
# The command line (`src/main.rs`, `src/cli.rs`)

The part of it that the generated units use: `aux` actions resolve the compositor again, from the words
of the unit.
-/

namespace Wsmr

open Text

/-- `AuxIdArgs` -/
structure AuxIdArgs where
  desktopNames : Option Str
  desktopNamesExclusive : Bool
  wmName : Option Str
  wmComment : Option Str
  wmId : Str
  wmCmdline : List Str

def splitColon (s : Str) : List Str := if s = [] then [] else s.splitOn ':'

/-- The options that units pass, then positionals. -/
def parseAuxFrom (names : Option Str) (exclusive : Bool) : List Str → Option AuxIdArgs
  | [] => none
  | w :: words =>
    if w = "--".toList then
      match words with
      | id :: cmdline => some ⟨names, exclusive, none, none, id, cmdline⟩
      | [] => none
    else if w = "-e".toList then parseAuxFrom names true words
    else if w = "-D".toList then
      match words with
      | v :: words => parseAuxFrom (some v) exclusive words
      | [] => none
    else if w = "-eD".toList then
      match words with
      | v :: words => parseAuxFrom (some v) true words
      | [] => none
    else none

def parseAux (words : List Str) : Option AuxIdArgs := parseAuxFrom none false words

/-- The command line that an `aux` action resolves. -/
def auxCmdline (args : AuxIdArgs) : List Str :=
  match args.wmCmdline with
  | [] => [args.wmId]
  | first :: rest => (if first = [] then args.wmId else first) :: rest

/-- `xdg` is the value of `$XDG_CURRENT_DESKTOP`. -/
def resolveAux (host : Host) (xdg : Str) (args : AuxIdArgs) : Except Error CompGlobals :=
  resolve host {
    wmCmdline := auxCmdline args
    desktopNames := splitColon (args.desktopNames.getD [])
    desktopNamesExclusive := args.desktopNamesExclusive
    name := args.wmName
    description := args.wmComment
    xdgCurrentDesktop := splitColon xdg }

/-- An `aux` action on these words; words that are not accepted give `none`. -/
def runAux (host : Host) (xdg : Str) (words : List Str) : Option (Except Error CompGlobals) :=
  (parseAux words).map (resolveAux host xdg)

def isAbsolute (word : Str) : Bool := "/".toList <+: word

/-- `start -F` -/
def applyHardcode (host : Host) (comp : CompGlobals) (hardcode : Bool) : Except Error CompGlobals :=
  if !hardcode then .ok comp
  else
    match comp.cmdline with
    | [] => .ok comp
    | first :: rest =>
      if isAbsolute first then .ok comp
      else
        match host.which first with
        | some resolved => .ok { comp with cmdline := resolved :: rest }
        | none =>
          .error (.resolve ("-F/--hardcode was given, but ".toList ++ debugStr first ++ " was not found on PATH".toList))

end Wsmr
