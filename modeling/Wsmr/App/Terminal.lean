import Wsmr.App.Find
import Wsmr.Lib.Search
import Wsmr.Lib.TreeMap

/-!
# The scan for a terminal emulator (`src/app/terminal.rs`)

Without a preference, the first terminal emulator among the `applications` is taken. Files that were none when they
were read last are passed over; the cache that remembers them has their paths and times. Paths are the same if their
components are, however they are spelled.
-/

namespace Wsmr

open Text Std

/-! ## The scan -/

/-- `check_showin` -/
def DesktopEntry.checkShowin (host : Host) (e : DesktopEntry) : Except Error Unit := do
  let xcd := (((host.env "XDG_CURRENT_DESKTOP".toList).getD []).splitOn ':').filter (· ≠ [])
  let osi := splitList (e.get "OnlyShowIn".toList none)
  let nsi := splitList (e.get "NotShowIn".toList none)
  if osi ≠ [] ∧ !osi.any xcd.contains then throw (.invalidArg (e.filename ++ " discarded by OnlyShowIn".toList))
  if nsi ≠ [] ∧ nsi.any xcd.contains then throw (.invalidArg (e.filename ++ " discarded by NotShowIn".toList))

def isTerminal (e : DesktopEntry) : Bool := e.categories.any (· = "TerminalEmulator".toList)

/-- `xdg::cache_home` -/
def Host.cacheHome (host : Host) : Option Str :=
  match host.nonEmptyVar "XDG_CACHE_HOME".toList with
  | some v => some v
  | none => (host.nonEmptyVar "HOME".toList).map (pathJoin · ".cache".toList)

def notTerminalsPath (host : Host) : Option Str :=
  host.cacheHome.map fun d => pathJoin (pathJoin d "wsmr".toList) "not-terminals.list".toList

/-- `HashMap<PathBuf, u64>`: the components of a path have its spelling and time. -/
abbrev NotTerminals := ExtTreeMap (List Str) (Str × Nat)

/-- `HashMap::get` -/
def NotTerminals.time? (cache : NotTerminals) (path : Str) : Option Nat := (cache[components path]?).map Prod.snd

/-- `HashMap::insert`; a path that is there keeps its spelling. -/
def NotTerminals.remember (cache : NotTerminals) (path : Str) (mtime : Nat) : NotTerminals :=
  cache.insert (components path) (((cache[components path]?).map Prod.fst).getD path, mtime)

/-- Line format: `<mtime> <path>`. -/
def loadNotTerminals (host : Host) : NotTerminals :=
  match (notTerminalsPath host).bind host.readFile with
  | none => ∅
  | some content => (lines content).foldl (fun m line =>
    match splitOnce ' ' line with
    | none => m
    | some (mt, path) =>
      match parseUnsigned 10 0x10000000000000000 mt with
      | none => m
      | some mt => m.remember path mt) ∅

/-- The variables of `scan_for_terminal` after its loop; what is found has the id it was listed with. -/
structure Scan where
  cache : NotTerminals
  changed : Bool
  found : Option (Str × DesktopEntry)

section
variable (host : Host) (mtime : Str → Nat) (excluded : List Str)

def scanFrom : List (Str × Str) → NotTerminals → Bool → Scan
  | [], cache, changed => ⟨cache, changed, none⟩
  | (id, path) :: rest, cache, changed =>
    if id ∈ excluded then scanFrom rest cache changed
    else if cache.time? path = some (mtime path) then scanFrom rest cache changed
    else
      match host.readFile path with
      | none => scanFrom rest cache changed
      | some content =>
        match DesktopEntry.parse path content with
        | .error _ => scanFrom rest cache changed
        | .ok e =>
          if isTerminal e && (e.checkBasic host none).isOk && (e.checkShowin host).isOk then
            ⟨cache, changed, some (id, e)⟩
          else if !isTerminal e then scanFrom rest (cache.remember path (mtime path)) true
          else scanFrom rest cache changed

def scanForTerminal : Scan :=
  scanFrom host mtime excluded (listEntries host "applications".toList) (loadNotTerminals host) false

/-! ## What is accepted -/

/-- What the scan is to take: an entry that is not excluded, is not in the cache, and is valid. -/
def accept (cache : NotTerminals) (p : Str × Str) : Option (Str × DesktopEntry) :=
  if p.1 ∈ excluded ∨ cache.time? p.2 = some (mtime p.2) then none
  else
    match readEntry host p.2 with
    | .error _ => none
    | .ok e =>
      if isTerminal e && (e.checkBasic host none).isOk && (e.checkShowin host).isOk then some (p.1, e) else none

end

/-- An entry with this text is no terminal, whatever its path is. -/
def NoTerminal (text : Str) : Prop := ∀ path, ∃ e, DesktopEntry.parse path text = .ok e ∧ isTerminal e = false

/-- What an entry is does not depend on its path. -/
theorem noTerminal_of_parse {path text : Str} {e : DesktopEntry} (hparse : DesktopEntry.parse path text = .ok e)
    (hterm : isTerminal e = false) : NoTerminal text := by
  intro path'
  unfold DesktopEntry.parse at hparse ⊢
  dsimp only at hparse ⊢
  split at hparse
  · rename_i hmain
    obtain rfl := Except.ok.inj hparse
    exact ⟨_, if_pos hmain, hterm⟩
  · cases hparse

section
variable {cache : NotTerminals} {path path' : Str} {t : Nat}

theorem time?_eq_some : cache.time? path = some t ↔ ∃ spelling, cache[components path]? = some (spelling, t) := by
  simp [NotTerminals.time?]

theorem time?_empty (path : Str) : (∅ : NotTerminals).time? path = none := by simp [NotTerminals.time?]

theorem time?_remember_ne (h : components path' ≠ components path) :
    (cache.remember path' t).time? path = cache.time? path :=
  congrArg (Option.map Prod.snd) (TreeMap.getElem?_insert_ne h)

end

section
variable {host : Host} {mtime : Str → Nat} {excluded : List Str}

theorem readEntry_of_some {path content : Str} (h : host.readFile path = some content) :
    readEntry host path = DesktopEntry.parse path content := by
  unfold readEntry
  rw [h]
  rfl

theorem readEntry_of_none {path : Str} (h : host.readFile path = none) : readEntry host path = .error (.io path) := by
  unfold readEntry
  rw [h]
  rfl

theorem accept_of_fresh {cache : NotTerminals} {id path : Str} (hex : id ∉ excluded)
    (hfresh : cache.time? path ≠ some (mtime path)) : accept host mtime excluded cache (id, path) =
      match readEntry host path with
      | .error _ => none
      | .ok e =>
        if isTerminal e && (e.checkBasic host none).isOk && (e.checkShowin host).isOk then some (id, e) else none :=
  if_neg (not_or.2 ⟨hex, hfresh⟩)

theorem accept_of_noTerminal {cache : NotTerminals} {p : Str × Str} {text : Str} (hread : host.readFile p.2 = some text)
    (h : NoTerminal text) : accept host mtime excluded cache p = none := by
  obtain ⟨e, hparse, hterm⟩ := h p.2
  unfold accept
  rw [readEntry_of_some hread, hparse]
  simp [hterm]

/-- Only what the cache says about the path counts. -/
theorem accept_congr {cache old : NotTerminals} {p : Str × Str} (h : cache.time? p.2 = old.time? p.2) :
    accept host mtime excluded cache p = accept host mtime excluded old p := by
  unfold accept
  rw [h]

/-- What the loop does with one file: it takes the entry and stops, it goes on, or it goes on with the file in the
cache. -/
theorem scanFrom_cons_cases (id path : Str) (rest : List (Str × Str)) (cache : NotTerminals) (changed : Bool) :
    (∃ q, accept host mtime excluded cache (id, path) = some q ∧
      scanFrom host mtime excluded ((id, path) :: rest) cache changed = ⟨cache, changed, some q⟩) ∨
    accept host mtime excluded cache (id, path) = none ∧
      (scanFrom host mtime excluded ((id, path) :: rest) cache changed =
          scanFrom host mtime excluded rest cache changed ∨
        ∃ text, host.readFile path = some text ∧ NoTerminal text ∧
          scanFrom host mtime excluded ((id, path) :: rest) cache changed =
            scanFrom host mtime excluded rest (cache.remember path (mtime path)) true) := by
  rw [scanFrom]
  by_cases hex : id ∈ excluded
  · exact Or.inr ⟨if_pos (Or.inl hex), Or.inl (if_pos hex)⟩
  rw [if_neg hex]
  by_cases hhit : cache.time? path = some (mtime path)
  · exact Or.inr ⟨if_pos (Or.inr hhit), Or.inl (if_pos hhit)⟩
  rw [if_neg hhit, accept_of_fresh hex hhit]
  cases hread : host.readFile path with
  | none =>
    rw [readEntry_of_none hread]
    exact Or.inr ⟨rfl, Or.inl rfl⟩
  | some text =>
    rw [readEntry_of_some hread]
    dsimp only
    cases hparse : DesktopEntry.parse path text with
    | error e => exact Or.inr ⟨rfl, Or.inl rfl⟩
    | ok e =>
      dsimp only
      split
      · exact Or.inl ⟨(id, e), rfl, rfl⟩
      · cases hterm : isTerminal e with
        | true => exact Or.inr ⟨rfl, Or.inl rfl⟩
        | false => exact Or.inr ⟨rfl, Or.inr ⟨text, rfl, noTerminal_of_parse hparse hterm, rfl⟩⟩

/-- **What the scan finds**, and what it leaves in the cache: `I` is any property of the cache that remembering files
that are no terminals keeps. As long as it says that the cache changes nothing but what `old` changes, the scan takes
what is accepted with `old`. -/
theorem scanFrom_spec {I : NotTerminals → Prop} {old : NotTerminals} : ∀ {items : List (Str × Str)}
    {cache : NotTerminals} {changed : Bool},
    (∀ p ∈ items, ∀ text, host.readFile p.2 = some text → NoTerminal text → ∀ cache, I cache →
      I (cache.remember p.2 (mtime p.2))) →
    (∀ p ∈ items, ∀ cache, I cache → accept host mtime excluded cache p = accept host mtime excluded old p) →
    I cache → I (scanFrom host mtime excluded items cache changed).cache ∧
      (scanFrom host mtime excluded items cache changed).found = items.findSome? (accept host mtime excluded old)
  | [], _, _, _, _, h => ⟨h, rfl⟩
  | (id, path) :: rest, cache, changed, hstep, hold, h => by
    obtain ⟨hfile, hstep⟩ := List.forall_mem_cons.1 hstep
    obtain ⟨haccept, hold⟩ := List.forall_mem_cons.1 hold
    rw [List.findSome?_cons, ← haccept cache h]
    rcases @scanFrom_cons_cases host mtime excluded id path rest cache changed with
      ⟨q, htake, hscan⟩ | ⟨hpass, hscan | ⟨text, hread, hno, hscan⟩⟩
    · rw [htake, hscan]
      exact ⟨h, rfl⟩
    · rw [hpass, hscan]
      exact scanFrom_spec hstep hold h
    · rw [hpass, hscan]
      exact scanFrom_spec hstep hold (hfile text hread hno cache h)

theorem accept_some {cache : NotTerminals} {q : Str × DesktopEntry} {id path : Str}
    (h : accept host mtime excluded cache (id, path) = some q) : q.1 = id ∧ readEntry host path = .ok q.2 := by
  unfold accept at h
  split at h
  · cases h
  cases hread : readEntry host path with
  | error e => rw [hread] at h; cases h
  | ok e =>
    rw [hread] at h
    dsimp only at h
    split at h
    · obtain rfl := Option.some.inj h
      exact ⟨rfl, rfl⟩
    · cases h

theorem filename_of_readEntry {path : Str} {e : DesktopEntry} (h : readEntry host path = .ok e) :
    e.filename = path := by
  cases hread : host.readFile path with
  | none =>
    rw [readEntry_of_none hread] at h
    cases h
  | some content =>
    rw [readEntry_of_some hread, DesktopEntry.parse] at h
    split at h
    · obtain rfl := Except.ok.inj h
      rfl
    · cases h

/-! ## Precedence -/

/-- The times of the files. A file that is listed under several spellings of its path is one file. -/
structure FileTimes (host : Host) where
  mtime : Str → Nat
  one_file : ∀ p ∈ listEntries host "applications".toList, ∀ q ∈ listEntries host "applications".toList,
    components p.2 = components q.2 → mtime p.2 = mtime q.2 ∧ host.readFile p.2 = host.readFile q.2

/-- What the scan makes of something that is seen. -/
def acceptSeen (host : Host) (mtime : Str → Nat) (excluded : List Str) (x : Seen) : Option (Str × DesktopEntry) :=
  x.file?.bind (accept host mtime excluded (loadNotTerminals host))

/-- `x` ends a search for the id of `a`. -/
def Seen.Overrides : Seen → Seen → Prop
  | .file id _, .file id' _ => id = id'
  | .broken _, .file _ _ => True
  | _, .broken _ => False

theorem overrides_iff {x : Seen} {id path : Str} : x.Overrides (.file id path) ↔ (x.ends host id).isSome = true := by
  cases x with
  | broken dir => exact iff_of_true trivial rfl
  | file id' path' =>
    unfold Seen.Overrides Seen.ends
    by_cases h : id' = id
    · simp [h]
    · simp [h]

theorem scanForTerminal_found (times : FileTimes host) : (scanForTerminal host times.mtime excluded).found =
    (seen host "applications".toList).findSome? (acceptSeen host times.mtime excluded) := by
  have hscan := @scanFrom_spec host times.mtime excluded
    (fun cache => ∀ p ∈ listEntries host "applications".toList,
      accept host times.mtime excluded cache p = accept host times.mtime excluded (loadNotTerminals host) p)
    (loadNotTerminals host) (listEntries host "applications".toList) (loadNotTerminals host) false
    (fun q hq text hread hno cache h p hp => by
      by_cases hsame : components p.2 = components q.2
      · -- The same file: it is no terminal either.
        have hread' : host.readFile p.2 = some text := (times.one_file p hp q hq hsame).2.trans hread
        rw [accept_of_noTerminal hread' hno, accept_of_noTerminal hread' hno]
      · rw [accept_congr (time?_remember_ne (Ne.symm hsame)), h p hp])
    (fun p hp cache h => h p hp) fun _ _ => rfl
  unfold scanForTerminal
  rw [hscan.2, listEntries_eq, ← List.head?_filterMap, List.filterMap_filterMap, List.head?_filterMap]
  rfl

theorem acceptSeen_some {a : Seen} {id : Str} {e : DesktopEntry}
    (h : acceptSeen host mtime excluded a = some (id, e)) :
    ∃ path, a = .file id path ∧ readEntry host path = .ok e := by
  cases a with
  | broken dir => cases h
  | file id' path =>
    obtain ⟨hid, hread⟩ := accept_some h
    obtain rfl : id = id' := hid
    exact ⟨path, rfl, hread⟩

/-- The entry that the scan finds is that of its id. -/
def PrecedenceKept (host : Host) (mtime : Str → Nat) (excluded : List Str) : Prop :=
  ∀ id e, (scanForTerminal host mtime excluded).found = some (id, e) →
    findEntry host "applications".toList id = .ok (some e)

/-- **The scan respects precedence** exactly if whatever it would take although something earlier overrides it comes
after something else to take. -/
theorem precedence_kept_iff (times : FileTimes host) : PrecedenceKept host times.mtime excluded ↔
    ∀ before a after, seen host "applications".toList = before ++ a :: after →
      (acceptSeen host times.mtime excluded a).isSome = true → (∃ x ∈ before, x.Overrides a) →
        ∃ before' a' after', before = before' ++ a' :: after' ∧
          (acceptSeen host times.mtime excluded a').isSome = true ∧ ∀ x ∈ before', ¬ x.Overrides a' := by
  rw [← Search.first_kept_iff]
  unfold PrecedenceKept
  rw [scanForTerminal_found]
  constructor
  · intro h before a after hseen ha hfirst x hx hover
    obtain ⟨⟨id, e⟩, hq⟩ := Option.isSome_iff_exists.1 ha
    obtain ⟨path, rfl, hread⟩ := acceptSeen_some hq
    have hnone : ∀ y ∈ before, acceptSeen host times.mtime excluded y = none := fun y hy =>
      Option.not_isSome_iff_eq_none.1 (hfirst y hy)
    have hfind := h id e (by
      rw [hseen, List.findSome?_eq_some_iff]
      exact ⟨before, _, after, rfl, hq, hnone⟩)
    -- The lookup ends before the file that the scan takes.
    obtain ⟨r, hr⟩ := Option.isSome_iff_exists.1 (List.findSome?_isSome_iff.2 ⟨x, hx, overrides_iff.1 hover⟩)
    rw [findEntry_eq, hseen, lookupIn, List.findSome?_append, hr] at hfind
    obtain rfl : r = .ok (some e) := hfind
    obtain ⟨y, hy, hends⟩ := List.exists_of_findSome?_eq_some hr
    cases y with
    | broken dir => cases Option.some.inj hends
    | file id' path' =>
      by_cases hid : id' = id
      · subst hid
        rw [Seen.ends, if_pos rfl] at hends
        have hread' : readEntry host path' = .ok e := by
          cases hother : readEntry host path' with
          | error err => rw [hother] at hends; cases Option.some.inj hends
          | ok e' =>
            rw [hother] at hends
            cases Option.some.inj hends
            rfl
        -- Entries are told apart by their paths.
        obtain rfl : path' = path := (filename_of_readEntry hread').symm.trans (filename_of_readEntry hread)
        cases (hnone _ hy).symm.trans hq
      · rw [Seen.ends, if_neg hid] at hends
        cases hends
  · intro h id e hfound
    obtain ⟨before, a, after, hseen, hq, hnone⟩ := List.findSome?_eq_some_iff.1 hfound
    obtain ⟨path, rfl, hread⟩ := acceptSeen_some hq
    have hkept := h before _ after hseen (by rw [hq]; rfl) fun x hx => by rw [hnone x hx]; exact Bool.false_ne_true
    have hbefore : before.findSome? (Seen.ends host id) = none := List.findSome?_eq_none_iff.2 fun x hx =>
      Option.not_isSome_iff_eq_none.1 fun hends => hkept x hx (overrides_iff.2 hends)
    rw [findEntry_eq, hseen, lookupIn, List.findSome?_append, hbefore, List.findSome?_cons, Seen.ends, if_pos rfl, hread]
    rfl

end

/-- Every file is read and parsed, and no two files below one data directory have one id. -/
structure Regular (host : Host) (subpath : Str) : Prop where
  readable : ∀ x ∈ seen host subpath, ∃ id path e, x = .file id path ∧ readEntry host path = .ok e
  unique : ∀ base ∈ host.dataPaths, (((seenBelow host subpath base).filterMap Seen.file?).map Prod.fst).Nodup

/-- A host whose user has hidden the only terminal there is. -/
def hiddenHost : Host where
  env name :=
    if name = "XDG_DATA_HOME".toList then some "/h".toList
    else if name = "XDG_DATA_DIRS".toList then some "/s".toList
    else if name = "PATH".toList then some "/b".toList
    else none
  readFile path :=
    if path = "/h/applications/t.desktop".toList then
      some "[Desktop Entry]\nType=Application\nName=T\nExec=t\nCategories=TerminalEmulator;\nHidden=true\n".toList
    else if path = "/s/applications/t.desktop".toList then
      some "[Desktop Entry]\nType=Application\nName=T\nExec=t\nCategories=TerminalEmulator;\n".toList
    else none
  isExecutable path := path = "/b/t".toList
  dir path :=
    if path = "/h/applications".toList ∨ path = "/s/applications".toList then some (some [.file "t.desktop".toList])
    else none

theorem seenBelow_hidden {base dir path : Str} (hdir : pathJoin base "applications".toList = dir)
    (hlisted : dir = "/h/applications".toList ∨ dir = "/s/applications".toList)
    (hpath : pathJoin dir "t.desktop".toList = path) :
    seenBelow hiddenHost "applications".toList base = [.file "t.desktop".toList path] := by
  have hlisting : hiddenHost.dir dir = some (some [.file "t.desktop".toList]) := by
    unfold hiddenHost
    exact if_pos hlisted
  have hfile : isDesktopFile "t.desktop".toList = true := by decide
  have hid : entryIdOf (pathJoin [] "t.desktop".toList) = "t.desktop".toList := by decide
  generalize "t.desktop".toList = name at *
  unfold seenBelow
  rw [hdir, hlisting]
  dsimp only
  rw [seenIn, if_pos hfile, hid, hpath, seenIn]

theorem dataPaths_hidden : hiddenHost.dataPaths = ["/h".toList, "/s".toList] := by decide

theorem seenBelow_hidden_home : seenBelow hiddenHost "applications".toList "/h".toList =
    [.file "t.desktop".toList "/h/applications/t.desktop".toList] :=
  @seenBelow_hidden "/h".toList "/h/applications".toList "/h/applications/t.desktop".toList (by decide)
    (Or.inl rfl) (by decide)

theorem seenBelow_hidden_system : seenBelow hiddenHost "applications".toList "/s".toList =
    [.file "t.desktop".toList "/s/applications/t.desktop".toList] :=
  @seenBelow_hidden "/s".toList "/s/applications".toList "/s/applications/t.desktop".toList (by decide)
    (Or.inr rfl) (by decide)

theorem seen_hidden : seen hiddenHost "applications".toList =
    [.file "t.desktop".toList "/h/applications/t.desktop".toList,
      .file "t.desktop".toList "/s/applications/t.desktop".toList] := by
  rw [seen, dataPaths_hidden, List.flatMap_cons, List.flatMap_singleton, seenBelow_hidden_home, seenBelow_hidden_system]
  rfl

theorem regular_hidden : Regular hiddenHost "applications".toList where
  readable := by
    have hread : ∀ path ∈ ["/h/applications/t.desktop".toList, "/s/applications/t.desktop".toList],
        (readEntry hiddenHost path).toOption.isSome = true := by
      unfold hiddenHost
      repeat rw [String.toList_ofList]
      decide
    have hok : ∀ path ∈ ["/h/applications/t.desktop".toList, "/s/applications/t.desktop".toList],
        ∃ e, readEntry hiddenHost path = .ok e := fun path hpath => by
      cases h : readEntry hiddenHost path with
      | error e =>
        have hsome := hread path hpath
        rw [h] at hsome
        cases hsome
      | ok e => exact ⟨e, rfl⟩
    rw [seen_hidden]
    rintro x hx
    rcases List.mem_cons.1 hx with rfl | hx
    · obtain ⟨e, he⟩ := hok _ List.mem_cons_self
      exact ⟨_, _, e, rfl, he⟩
    · obtain rfl := List.mem_singleton.1 hx
      obtain ⟨e, he⟩ := hok _ (List.mem_cons_of_mem _ List.mem_cons_self)
      exact ⟨_, _, e, rfl, he⟩
  unique := by
    rw [dataPaths_hidden]
    intro base hbase
    rcases List.mem_cons.1 hbase with rfl | hbase
    · rw [seenBelow_hidden_home]
      exact List.pairwise_singleton _ _
    · obtain rfl := List.mem_singleton.1 hbase
      rw [seenBelow_hidden_system]
      exact List.pairwise_singleton _ _

theorem components_hidden : ∀ p ∈ ["/h/applications/t.desktop".toList, "/s/applications/t.desktop".toList],
    ∀ q ∈ ["/h/applications/t.desktop".toList, "/s/applications/t.desktop".toList],
      components p = components q → p = q := by
  decide

def hiddenTimes : FileTimes hiddenHost where
  mtime _ := 0
  one_file p hp q hq h := by
    have hlisted : ∀ p ∈ listEntries hiddenHost "applications".toList,
        p.2 ∈ ["/h/applications/t.desktop".toList, "/s/applications/t.desktop".toList] := fun p hp => by
      rw [listEntries_eq, seen_hidden] at hp
      exact List.mem_map_of_mem (f := Prod.snd) hp
    rw [components_hidden p.2 (hlisted p hp) q.2 (hlisted q hq) h]
    exact ⟨rfl, rfl⟩

/-- The hidden terminal is found below the system's data directory. -/
theorem hidden_entry_bypassed :
    Regular hiddenHost "applications".toList ∧ ¬ PrecedenceKept hiddenHost hiddenTimes.mtime [] := by
  refine ⟨regular_hidden, fun h => ?_⟩
  have hhome : (acceptSeen hiddenHost hiddenTimes.mtime [] (.file "t.desktop".toList
      "/h/applications/t.desktop".toList)).isNone = true := by
    decide
  have hsystem : (acceptSeen hiddenHost hiddenTimes.mtime [] (.file "t.desktop".toList
      "/s/applications/t.desktop".toList)).isSome = true := by
    decide
  have hdiffer : "/h/applications/t.desktop".toList ≠ "/s/applications/t.desktop".toList := by decide
  have hseen := seen_hidden
  generalize "/h/applications/t.desktop".toList = home at *
  generalize "/s/applications/t.desktop".toList = system at *
  obtain ⟨⟨id, e⟩, hq⟩ := Option.isSome_iff_exists.1 hsystem
  obtain ⟨path, hpath, hread⟩ := acceptSeen_some hq
  obtain ⟨rfl, rfl⟩ := Seen.file.inj hpath
  have hfind := h _ e (by
    rw [scanForTerminal_found, hseen, List.findSome?_cons, Option.isNone_iff_eq_none.1 hhome, List.findSome?_cons, hq])
  rw [findEntry_eq, hseen, lookupIn_cons_file, if_pos rfl] at hfind
  cases hother : readEntry hiddenHost home with
  | error err => rw [hother] at hfind; cases hfind
  | ok e' =>
    rw [hother] at hfind
    cases hfind
    exact hdiffer ((filename_of_readEntry hother).symm.trans (filename_of_readEntry hread))

end Wsmr
