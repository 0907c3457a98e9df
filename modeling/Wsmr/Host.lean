import Wsmr.Error

/-!
# What a process finds on its host (`src/util/mod.rs`, `src/util/xdg.rs`, `std::env`, `std::fs`)

The environment variables, the files that can be read or executed, and the directories of desktop
entries with what `read_dir` lists, in its order.
-/

namespace Wsmr

open Text

/-- An entry of a directory; the listing of a directory that cannot be read is `none`. -/
inductive DirEntry where
  | file (name : Str)
  | dir (name : Str) (listing : Option (List DirEntry))
  /-- `read_dir` fails at it. -/
  | broken

structure Host where
  /-- `std::env::var` -/
  env : Str → Option Str
  /-- `std::fs::read_to_string` -/
  readFile : Str → Option Str
  isExecutable : Str → Bool
  /-- The directories, with what they list. -/
  dir : Str → Option (Option (List DirEntry))

/-- `Path::join` -/
def pathJoin (base rel : Str) : Str :=
  if "/".toList <+: rel || base = [] then rel
  else if "/".toList <:+ base then base ++ rel
  else base ++ '/' :: rel

/-- `Path::components`, which paths are compared by: the root, and the names; empty names are passed over, and `.` is
unless a relative path begins with it. -/
def components (path : Str) : List Str :=
  let names := path.splitOn '/'
  let rest := names.filter fun name => name ≠ [] ∧ name ≠ ".".toList
  if path.head? = some '/' then "/".toList :: rest
  else if names.head? = some ".".toList then ".".toList :: rest
  else rest

namespace Host

def nonEmptyVar (host : Host) (name : Str) : Option Str := (host.env name).filter (· ≠ [])

def which (host : Host) (cmd : Str) : Option Str :=
  if cmd = [] then none
  else if cmd.contains '/' then if host.isExecutable cmd then some cmd else none
  else (host.env "PATH".toList).bind fun path =>
    ((path.splitOn ':').map fun dir => pathJoin dir cmd).find? host.isExecutable

def dataHome (host : Host) : Str :=
  match host.nonEmptyVar "XDG_DATA_HOME".toList with
  | some v => v
  | none =>
    match host.env "HOME".toList with
    | some h => pathJoin h ".local/share".toList
    | none => ".local/share".toList

def dataDirs (host : Host) : List Str :=
  (((host.nonEmptyVar "XDG_DATA_DIRS".toList).getD "/usr/local/share:/usr/share".toList).splitOn ':').filter (· ≠ [])

/-- In search order. -/
def dataPaths (host : Host) : List Str := host.dataHome :: host.dataDirs

end Host

end Wsmr
