import Std.Data.ExtTreeMap
import Wsmr.App.Field
import Wsmr.Host

/-!
# Desktop entries (`src/app/entry.rs`)
-/

namespace Wsmr

open Text Std

structure DesktopEntry where
  filename : Str
  groups : ExtTreeMap Str (ExtTreeMap Str Str)

namespace DesktopEntry

/-! ## Reading -/

/-- The variables of the loop of `parse`. -/
structure Reader where
  groups : ExtTreeMap Str (ExtTreeMap Str Str)
  current : Option Str

def readLine (r : Reader) (raw : Str) : Reader :=
  let line := trimEndMatches '\r' raw
  let trimmed := trim line
  if trimmed = [] || trimmed.head? = some '#' then r
  else
    match (stripPrefix "[".toList trimmed).bind (stripSuffix "]".toList) with
    | some name => ⟨r.groups.insert name (r.groups[name]?.getD ∅), some name⟩
    | none =>
      match splitOnce '=' line, r.current with
      | some (k, v), some g => ⟨r.groups.insert g ((r.groups[g]?.getD ∅).insert (trim k) v), r.current⟩
      | _, _ => r

def mainGroup : Str := "Desktop Entry".toList

def parse (filename content : Str) : Except Error DesktopEntry :=
  let r := (lines content).foldl readLine ⟨∅, none⟩
  if r.groups.contains mainGroup then .ok ⟨filename, r.groups⟩
  else .error (.invalidArg (filename ++ ": missing [Desktop Entry] group".toList))

/-! ## Values -/

def group (e : DesktopEntry) (action : Option Str) : Option (ExtTreeMap Str Str) :=
  match action with
  | none => e.groups[mainGroup]?
  | some a => e.groups["Desktop Action ".toList ++ a]?

def get (e : DesktopEntry) (key : Str) (action : Option Str) : Option Str := do
  let g ← e.group action
  g[key]?

end DesktopEntry

/-- `de_DE@mod` stands for `de_DE@mod`, `de_DE`, `de@mod` and `de`. -/
def localeVariants (loc : Str) : List Str :=
  let noCodeset := (loc.splitOn '.').headD loc
  let p : Str × Option Str :=
    match splitOnce '@' noCodeset with
    | some (b, m) => (b, some m)
    | none => (noCodeset, none)
  let lang := (p.1.splitOn '_').headD p.1
  (p.2.map fun m => p.1 ++ '@' :: m).toList ++ [p.1] ++
    if lang ≠ p.1 then (p.2.map fun m => lang ++ '@' :: m).toList ++ [lang] else []

/-- The first variable that is not empty wins. -/
def localeCandidates (host : Host) : List Str :=
  match ["LANGUAGE".toList, "LC_ALL".toList, "LC_MESSAGES".toList, "LANG".toList].findSome? host.nonEmptyVar with
  | some s => (s.splitOn ':').filter (· ≠ [])
  | none => []

def localeVariantChain (host : Host) : List Str :=
  (localeCandidates host).foldl (fun out lang =>
    (localeVariants lang).foldl (fun out variant => if out.contains variant then out else out ++ [variant]) out) []

def splitList (v : Option Str) : List Str := ((v.getD []).splitOn ';').filter (· ≠ [])

namespace DesktopEntry

def getLocalized (host : Host) (e : DesktopEntry) (key : Str) (action : Option Str) : Option Str := do
  let g ← e.group action
  let localized := (localeVariantChain host).findSome? fun cand => g[key ++ "[".toList ++ cand ++ "]".toList]?
  (localized.orElse fun _ => g[key]?).map expandStr

def exec (e : DesktopEntry) (action : Option Str) : Except Error (List Str) := do
  let raw ← ((e.get "Exec".toList action).map Except.ok).getD
    (.error (.invalidArg (e.filename ++ ": no Exec".toList)))
  tokenizeExec (expandStr raw)

def terminal (e : DesktopEntry) : Bool := e.get "Terminal".toList none == some "true".toList

def path (e : DesktopEntry) : Option Str := (e.get "Path".toList none).filter (· ≠ [])

def actions (e : DesktopEntry) : List Str := splitList (e.get "Actions".toList none)

def categories (e : DesktopEntry) : List Str := splitList (e.get "Categories".toList none)

/-- `is_none_or(str::is_empty)` -/
def missing (v : Option Str) : Bool := v.all (· = [])

/-- The part of `check_basic` about an action. -/
def checkAction (e : DesktopEntry) (a : Str) : Except Error Unit := do
  unless e.actions.contains a do
    throw (.invalidArg (e.filename ++ " has no action ".toList ++ a))
  let some group := e.group (some a) | throw (.invalidArg (e.filename ++ " has no action group for ".toList ++ a))
  if missing group["Name".toList]? then
    throw (.invalidArg (e.filename ++ " action ".toList ++ a ++ " does not have Name".toList))
  if missing group["Exec".toList]? then
    throw (.invalidArg (e.filename ++ " action ".toList ++ a ++ " does not have Exec".toList))

/-- The last part of `check_basic`. -/
def checkCommand (host : Host) (e : DesktopEntry) (action : Option Str) : Except Error Unit := do
  let exec ← e.exec action
  let some cmd := exec.head?.filter (· ≠ []) | throw (.invalidArg (e.filename ++ ": empty Exec".toList))
  if (host.which cmd).isNone then
    throw (.invalidArg (e.filename ++ " points to missing executable ".toList ++ cmd))

def checkBasic (host : Host) (e : DesktopEntry) (action : Option Str) : Except Error Unit := do
  if e.get "Type".toList none ≠ some "Application".toList then
    throw (.invalidArg (e.filename ++ " is not Type=Application".toList))
  if missing (e.get "Name".toList none) then
    throw (.invalidArg (e.filename ++ " has no Name".toList))
  if e.get "Hidden".toList none = some "true".toList then
    throw (.invalidArg (e.filename ++ " is hidden".toList))
  if let some tx := e.get "TryExec".toList none then
    if tx ≠ [] ∧ (host.which tx).isNone then
      throw (.invalidArg (e.filename ++ " discarded by TryExec (".toList ++ tx ++ ")".toList))
  if let some a := action then e.checkAction a
  e.checkCommand host action

/-- The command of an entry that passes is there and can be executed. -/
theorem checkCommand_ok {host : Host} {e : DesktopEntry} {action : Option Str} {words : List Str}
    (h : e.checkCommand host action = .ok ()) (hexec : e.exec action = .ok words) :
    ∃ w ws, words = w :: ws ∧ w ≠ [] ∧ (host.which w).isSome = true := by
  unfold checkCommand at h
  simp only [hexec, bind, Except.bind, throw, throwThe, MonadExceptOf.throw] at h
  split at h
  · rename_i w hw
    obtain ⟨hhead, hne⟩ := Option.filter_eq_some_iff.1 hw
    obtain ⟨ws, rfl⟩ := List.head?_eq_some_iff.1 hhead
    split at h
    · cases h
    · rename_i hwhich
      exact ⟨w, ws, rfl, by simpa using hne, Option.isSome_iff_ne_none.2 (by simpa using hwhich)⟩
  · cases h

theorem checkBasic_ok {host : Host} {e : DesktopEntry} {action : Option Str}
    (h : e.checkBasic host action = .ok ()) : e.checkCommand host action = .ok () := by
  unfold checkBasic at h
  simp only [bind, Except.bind, throw, throwThe, MonadExceptOf.throw] at h
  -- whatever check comes before, it has let the entry through
  repeat' split at h
  all_goals first | exact h | cases h

end DesktopEntry

end Wsmr
