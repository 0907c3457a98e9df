import Wsmr.App.Entry

/-!
# Finding desktop entries by id (`src/app/find.rs`)

The id of a file is its path below the directory that is searched, with `-` for `/`. The first match
in the order of the listings wins.
-/

namespace Wsmr

open Text

/-- The extension of the file name is `desktop`. -/
def isDesktopFile (name : Str) : Bool := ".desktop".toList <:+ name && name ≠ ".desktop".toList

/-- `to_string_lossy().replace('/', "-")` -/
def entryIdOf (rel : Str) : Str := rel.map fun c => if c = '/' then '-' else c

/-- What `walk` does with a file that has the id. -/
def readEntry (host : Host) (path : Str) : Except Error DesktopEntry := do
  let content ← ((host.readFile path).map Except.ok).getD (.error (.io path))
  DesktopEntry.parse path content

/-- Through a listing of `dir`, which is at `rel` below the base. -/
def walk (host : Host) (id : Str) (dir rel : Str) : List DirEntry → Except Error (Option DesktopEntry)
  | [] => .ok none
  | .broken :: _ => .error (.io dir)
  | .dir _ none :: rest => walk host id dir rel rest
  | .dir name (some listing) :: rest => do
    match ← walk host id (pathJoin dir name) (pathJoin rel name) listing with
    | some e => return some e
    | none => walk host id dir rel rest
  | .file name :: rest =>
    if isDesktopFile name && entryIdOf (pathJoin rel name) = id then
      (readEntry host (pathJoin dir name)).map some
    else walk host id dir rel rest

/-- `find_entry` below one data directory. -/
def findIn (host : Host) (subpath id base : Str) : Except Error (Option DesktopEntry) :=
  match host.dir (pathJoin base subpath) with
  | some (some listing) => walk host id (pathJoin base subpath) [] listing
  | _ => .ok none

def findFirst (host : Host) (subpath id : Str) : List Str → Except Error (Option DesktopEntry)
  | [] => .ok none
  | base :: bases => do
    match ← findIn host subpath id base with
    | some e => return some e
    | none => findFirst host subpath id bases

def findEntry (host : Host) (subpath id : Str) : Except Error (Option DesktopEntry) :=
  findFirst host subpath id host.dataPaths

/-! ## Listing -/

/-- Ids and paths, through a listing of `dir`; what cannot be read is passed over. -/
def collect (dir rel : Str) : List DirEntry → List (Str × Str)
  | [] => []
  | .broken :: rest => collect dir rel rest
  | .dir _ none :: rest => collect dir rel rest
  | .dir name (some listing) :: rest => collect (pathJoin dir name) (pathJoin rel name) listing ++ collect dir rel rest
  | .file name :: rest =>
    if isDesktopFile name then (entryIdOf (pathJoin rel name), pathJoin dir name) :: collect dir rel rest
    else collect dir rel rest
termination_by listing => sizeOf listing
decreasing_by
  all_goals
    simp only [List.cons.sizeOf_spec, DirEntry.dir.sizeOf_spec, Option.some.sizeOf_spec]
    omega

/-- `find::list` -/
def listEntries (host : Host) (subpath : Str) : List (Str × Str) := host.dataPaths.flatMap fun base =>
  match host.dir (pathJoin base subpath) with
  | some (some listing) => collect (pathJoin base subpath) [] listing
  | _ => []

/-! ## What both walks see -/

inductive Seen where
  /-- `read_dir` fails in this directory. -/
  | broken (dir : Str)
  | file (id path : Str)
  deriving DecidableEq, Repr

/-- Through a listing of `dir`, in the order of both walks. -/
def seenIn (dir rel : Str) : List DirEntry → List Seen
  | [] => []
  | .broken :: rest => .broken dir :: seenIn dir rel rest
  | .dir _ none :: rest => seenIn dir rel rest
  | .dir name (some listing) :: rest => seenIn (pathJoin dir name) (pathJoin rel name) listing ++ seenIn dir rel rest
  | .file name :: rest =>
    if isDesktopFile name then .file (entryIdOf (pathJoin rel name)) (pathJoin dir name) :: seenIn dir rel rest
    else seenIn dir rel rest
termination_by listing => sizeOf listing
decreasing_by
  all_goals
    simp only [List.cons.sizeOf_spec, DirEntry.dir.sizeOf_spec, Option.some.sizeOf_spec]
    omega

def seenBelow (host : Host) (subpath base : Str) : List Seen :=
  match host.dir (pathJoin base subpath) with
  | some (some listing) => seenIn (pathJoin base subpath) [] listing
  | _ => []

/-- The hierarchy in search order. -/
def seen (host : Host) (subpath : Str) : List Seen := host.dataPaths.flatMap (seenBelow host subpath)

def Seen.file? : Seen → Option (Str × Str)
  | .broken _ => none
  | .file id path => some (id, path)

/-- What ends a search for `id`, with its result. -/
def Seen.ends (host : Host) (id : Str) : Seen → Option (Except Error (Option DesktopEntry))
  | .broken dir => some (.error (.io dir))
  | .file id' path => if id' = id then some ((readEntry host path).map some) else none

def lookupIn (host : Host) (id : Str) (l : List Seen) : Except Error (Option DesktopEntry) :=
  (l.findSome? (Seen.ends host id)).getD (.ok none)

theorem collect_eq : ∀ (dir rel : Str) (l : List DirEntry), collect dir rel l = (seenIn dir rel l).filterMap Seen.file?
  | _, _, [] => by simp [collect, seenIn]
  | dir, rel, .broken :: rest => by
    rw [collect, seenIn, collect_eq dir rel rest]
    rfl
  | dir, rel, .dir _ none :: rest => by rw [collect, seenIn, collect_eq dir rel rest]
  | dir, rel, .dir name (some listing) :: rest => by
    rw [collect, seenIn, collect_eq _ _ listing, collect_eq dir rel rest, List.filterMap_append]
  | dir, rel, .file name :: rest => by
    rw [collect, seenIn, collect_eq dir rel rest]
    split
    · rfl
    · rfl

theorem ends_ne_none {host : Host} {id : Str} {x : Seen} {r : Except Error (Option DesktopEntry)}
    (h : x.ends host id = some r) : r ≠ .ok none := by
  cases x with
  | broken dir =>
    obtain rfl := Option.some.inj h
    exact nofun
  | file id' path =>
    by_cases hid : id' = id
    · rw [Seen.ends, if_pos hid] at h
      obtain rfl := Option.some.inj h
      cases readEntry host path with
      | error e => exact nofun
      | ok e => exact nofun
    · rw [Seen.ends, if_neg hid] at h
      exact nomatch h

/-- The search goes on after `a` if nothing has ended it. -/
theorem lookupIn_append (host : Host) (id : Str) (a b : List Seen) : lookupIn host id (a ++ b) =
    match lookupIn host id a with
    | .ok none => lookupIn host id b
    | r => r := by
  unfold lookupIn
  rw [List.findSome?_append]
  cases ha : a.findSome? (Seen.ends host id) with
  | none => rfl
  | some r =>
    obtain ⟨x, -, hx⟩ := List.exists_of_findSome?_eq_some ha
    have hr := ends_ne_none hx
    match r, hr with
    | .error e, _ => rfl
    | .ok (some e), _ => rfl
    | .ok none, hr => exact absurd rfl hr

theorem lookupIn_cons_file (host : Host) (id id' path : Str) (l : List Seen) :
    lookupIn host id (.file id' path :: l) = if id' = id then (readEntry host path).map some else lookupIn host id l := by
  unfold lookupIn
  by_cases hid : id' = id
  · rw [List.findSome?_cons, Seen.ends, if_pos hid, if_pos hid]
    rfl
  · rw [List.findSome?_cons, Seen.ends, if_neg hid, if_neg hid]

theorem walk_eq (host : Host) (id : Str) : ∀ (dir rel : Str) (l : List DirEntry),
    walk host id dir rel l = lookupIn host id (seenIn dir rel l)
  | _, _, [] => by
    rw [walk, seenIn]
    rfl
  | dir, rel, .broken :: rest => by
    rw [walk, seenIn]
    rfl
  | dir, rel, .dir _ none :: rest => by rw [walk, seenIn, walk_eq host id dir rel rest]
  | dir, rel, .dir name (some listing) :: rest => by
    rw [walk, seenIn, walk_eq host id _ _ listing, walk_eq host id dir rel rest, lookupIn_append]
    match lookupIn host id (seenIn (pathJoin dir name) (pathJoin rel name) listing) with
    | .error e => rfl
    | .ok none => rfl
    | .ok (some e) => rfl
  | dir, rel, .file name :: rest => by
    rw [walk, seenIn, walk_eq host id dir rel rest]
    by_cases hdesktop : isDesktopFile name = true
    · rw [if_pos hdesktop, lookupIn_cons_file, hdesktop]
      simp only [Bool.true_and, decide_eq_true_eq]
    · simp only [hdesktop, Bool.false_and, Bool.false_eq_true, if_false]

theorem findFirst_eq (host : Host) (subpath id : Str) : ∀ bases : List Str,
    findFirst host subpath id bases = lookupIn host id (bases.flatMap (seenBelow host subpath))
  | [] => rfl
  | base :: bases => by
    have hbelow : findIn host subpath id base = lookupIn host id (seenBelow host subpath base) := by
      unfold findIn seenBelow
      split
      · exact walk_eq host id _ _ _
      · rfl
    rw [findFirst, hbelow, findFirst_eq host subpath id bases, List.flatMap_cons, lookupIn_append]
    match lookupIn host id (seenBelow host subpath base) with
    | .error e => rfl
    | .ok none => rfl
    | .ok (some e) => rfl

/-- **Both walks** go through the same files in the same order. -/
theorem findEntry_eq (host : Host) (subpath id : Str) :
    findEntry host subpath id = lookupIn host id (seen host subpath) :=
  findFirst_eq host subpath id host.dataPaths

theorem listEntries_eq (host : Host) (subpath : Str) :
    listEntries host subpath = (seen host subpath).filterMap Seen.file? := by
  unfold listEntries seen
  rw [List.filterMap_flatMap]
  refine List.flatMap_congr fun base _ => ?_
  unfold seenBelow
  split
  · exact collect_eq _ _ _
  · rfl

end Wsmr
