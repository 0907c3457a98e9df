import Wsmr.Lib.Text

/-!
# Errors (`src/error.rs`)

The causes an operating system or bus reports (`source` in the original) are not told apart:
nothing decides on them.
-/

namespace Wsmr

open Text

inductive Error where
  | io (path : Str)
  | envMissing (name : Str)
  | dbus
  | invalidArg (msg : Str)
  | resolve (what : Str)
  | generationConflict (msg : Str)
  | partialEnvUpdate (operation applied failed : Str)
  deriving DecidableEq, Repr

/-- `Display` -/
def Error.toStr : Error → Str
  | .io path => path ++ ": ".toList
  | .envMissing name => "environment variable ".toList ++ name ++ " is not set".toList
  | .dbus => "D-Bus: ".toList
  | .invalidArg msg => msg
  | .resolve what => "could not resolve ".toList ++ what
  | .generationConflict msg => msg
  | .partialEnvUpdate operation applied failed =>
    operation ++ " succeeded on ".toList ++ applied ++ ", but failed on ".toList ++ failed ++
      ": ".toList

end Wsmr
