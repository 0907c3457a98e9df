import Mathlib.Logic.Function.Basic
import Wsmr.App.Terminal

/-!
# The cache of files that are no terminals (`src/app/terminal.rs`)

A scan passes over the files that the cache holds with the time they have, and leaves a cache for the next one in a text
file. As long as a file's path and time determine what is in it, every pair in a cache belongs to an entry that is no
terminal (`CacheSound`): so no scan finds anything else than it would find without a cache (`scan_found_eq_plain`).
-/

namespace Wsmr

open Text Std

/-! ## Without a cache -/

/-- The loop of `scan_for_terminal` without its cache. -/
def plainScan (host : Host) (excluded : List Str) : List (Str × Str) → Option (Str × DesktopEntry)
  | [] => none
  | (id, path) :: rest =>
    if excluded.contains id then plainScan host excluded rest
    else
      match host.readFile path with
      | none => plainScan host excluded rest
      | some content =>
        match DesktopEntry.parse path content with
        | .error _ => plainScan host excluded rest
        | .ok e =>
          if isTerminal e && (e.checkBasic host none).isOk && (e.checkShowin host).isOk then some (id, e)
          else plainScan host excluded rest

/-! ## The text of a cache -/

/-- The pair of a line. -/
def cacheLine (line : Str) : Option (Str × Nat) :=
  match splitOnce ' ' line with
  | none => none
  | some (mt, path) => (parseUnsigned 10 0x10000000000000000 mt).map fun mt => (path, mt)

def loadText (text : Str) : NotTerminals :=
  ((lines text).filterMap cacheLine).foldl (fun m p => m.remember p.1 p.2) ∅

/-- What `save_not_terminals` writes when it comes to the pairs in this order; a path with a newline is left out. -/
def saveText (pairs : List (Str × Nat)) : Str :=
  unlines ((pairs.filter fun p => !p.1.contains '\n').map fun p => decimal p.2 ++ ' ' :: p.1)

theorem foldl_lines (m : NotTerminals) : ∀ ls : List Str, ls.foldl (fun m line =>
    match splitOnce ' ' line with
    | none => m
    | some (mt, path) =>
      match parseUnsigned 10 0x10000000000000000 mt with
      | none => m
      | some mt => m.remember path mt) m = (ls.filterMap cacheLine).foldl (fun m p => m.remember p.1 p.2) m
  | [] => rfl
  | line :: ls => by
    rw [List.foldl_cons, List.filterMap_cons, cacheLine]
    cases splitOnce ' ' line with
    | none => exact foldl_lines m ls
    | some p =>
      obtain ⟨mt, path⟩ := p
      dsimp only
      cases parseUnsigned 10 0x10000000000000000 mt with
      | none => exact foldl_lines m ls
      | some mt => exact foldl_lines _ ls

theorem loadNotTerminals_eq (host : Host) :
    loadNotTerminals host = ((notTerminalsPath host).bind host.readFile).elim ∅ loadText := by
  unfold loadNotTerminals
  cases (notTerminalsPath host).bind host.readFile with
  | none => rfl
  | some text => exact foldl_lines ∅ (lines text)

theorem newline_not_mem_cacheLine {p : Str × Nat} (h : '\n' ∉ p.1) : '\n' ∉ decimal p.2 ++ ' ' :: p.1 := by
  have hmt : '\n' ∉ decimal p.2 := not_mem_decimal (by decide) p.2
  simp [hmt, h]

theorem cacheLine_line {p q : Str × Nat} (h : cacheLine (decimal p.2 ++ ' ' :: p.1) = some q) : q = p := by
  unfold cacheLine at h
  rw [splitOnce_append p.1 (not_mem_decimal (by decide) p.2)] at h
  obtain ⟨mt, hmt, rfl⟩ := Option.map_eq_some_iff.1 h
  rw [of_parseUnsigned_decimal hmt]

/-- **What is read was saved**, if no path ends in a carriage return. -/
theorem mem_of_saved {pairs : List (Str × Nat)} (hcr : ∀ p ∈ pairs, p.1.getLast? ≠ some '\r') {p : Str × Nat}
    (h : p ∈ (lines (saveText pairs)).filterMap cacheLine) : p ∈ pairs := by
  have hline : ∀ l ∈ (pairs.filter fun p => !p.1.contains '\n').map (fun p => decimal p.2 ++ ' ' :: p.1),
      '\n' ∉ l := by
    intro l hl
    obtain ⟨p, hp, rfl⟩ := List.mem_map.1 hl
    exact newline_not_mem_cacheLine (by simpa using (List.mem_filter.1 hp).2)
  rw [saveText, lines_unlines hline, List.map_map] at h
  obtain ⟨l, hl, hparse⟩ := List.mem_filterMap.1 h
  obtain ⟨q, hq, rfl⟩ := List.mem_map.1 hl
  obtain ⟨hpair, -⟩ := List.mem_filter.1 hq
  have hstrip : stripCr (decimal q.2 ++ ' ' :: q.1) = decimal q.2 ++ ' ' :: q.1 := by
    refine if_neg fun hlast => ?_
    rw [List.getLast?_append_cons] at hlast
    cases hpath : q.1 with
    | nil => simp [hpath] at hlast
    | cons c rest =>
      rw [hpath, List.getLast?_cons_cons] at hlast
      exact hcr q hpair (hpath ▸ hlast)
  rw [Function.comp_apply, hstrip] at hparse
  rwa [cacheLine_line hparse]

/-! ## What is listed -/

theorem suffix_pathJoin (base rel : Str) : rel <:+ pathJoin base rel := by
  unfold pathJoin
  split
  · exact List.suffix_refl rel
  · split
    · exact List.suffix_append base rel
    · exact (List.suffix_cons '/' rel).trans (List.suffix_append base _)

theorem suffix_of_mem_collect {p : Str × Str} : ∀ {dir rel : Str} {l : List DirEntry}, p ∈ collect dir rel l →
    ".desktop".toList <:+ p.2
  | _, _, [], h => by simp [collect] at h
  | _, _, .broken :: _, h => by
    rw [collect] at h
    exact suffix_of_mem_collect h
  | _, _, .dir _ none :: _, h => by
    rw [collect] at h
    exact suffix_of_mem_collect h
  | _, _, .dir _ (some _) :: _, h => by
    rw [collect] at h
    rcases List.mem_append.1 h with h | h
    · exact suffix_of_mem_collect h
    · exact suffix_of_mem_collect h
  | dir, _, .file name :: _, h => by
    rw [collect] at h
    split at h
    · rename_i hfile
      rcases List.mem_cons.1 h with rfl | h
      · have hsuffix := of_decide_eq_true (Bool.and_eq_true_iff.1 hfile).1
        exact hsuffix.trans (suffix_pathJoin dir name)
      · exact suffix_of_mem_collect h
    · exact suffix_of_mem_collect h

/-- No listed path ends in a carriage return. -/
theorem getLast?_of_listed {host : Host} {p : Str × Str} (h : p ∈ listEntries host "applications".toList) :
    p.2.getLast? ≠ some '\r' := by
  have hext : ".desktop".toList = ".deskto".toList ++ ['p'] := by decide
  have hsuffix : ".desktop".toList <:+ p.2 := by
    obtain ⟨base, -, hbase⟩ := List.mem_flatMap.1 h
    split at hbase
    · exact suffix_of_mem_collect hbase
    · cases hbase
  obtain ⟨t, ht⟩ := hsuffix
  rw [← ht, hext, ← List.append_assoc, List.getLast?_concat]
  decide

/-! ## What the cache holds -/

/-- What there is belongs to a file that is no terminal, and can be saved; `content` is what the file of a path has at
a time. -/
structure CacheSound (content : List Str → Nat → Str) (cache : NotTerminals) : Prop where
  no_terminal : ∀ (path : List Str) spelling t, cache[path]? = some (spelling, t) → NoTerminal (content path t)
  spelled : ∀ (path : List Str) spelling t, cache[path]? = some (spelling, t) → components spelling = path
  no_cr : ∀ (path : List Str) spelling t, cache[path]? = some (spelling, t) → spelling.getLast? ≠ some '\r'

section
variable {content : List Str → Nat → Str} {host : Host} {mtime : Str → Nat} {excluded : List Str}

theorem sound_empty : CacheSound content ∅ where
  no_terminal path spelling t h := by simp at h
  spelled path spelling t h := by simp at h
  no_cr path spelling t h := by simp at h

/-- What is there after a file is remembered: the file, under a spelling of its path, or what has been there. -/
theorem getElem?_remember {cache : NotTerminals} {p : Str} {t : Nat} {path : List Str} {spelling : Str} {t' : Nat}
    (h : (cache.remember p t)[path]? = some (spelling, t')) :
    path = components p ∧ t' = t ∧ (spelling = p ∨ ∃ old, cache[path]? = some (spelling, old)) ∨
      cache[path]? = some (spelling, t') := by
  by_cases hpath : components p = path
  · subst hpath
    rw [NotTerminals.remember, ExtTreeMap.getElem?_insert_self] at h
    obtain ⟨hspelling, rfl⟩ := Prod.mk.inj (Option.some.inj h)
    refine Or.inl ⟨rfl, rfl, ?_⟩
    cases hold : cache[components p]? with
    | none =>
      rw [hold] at hspelling
      exact Or.inl hspelling.symm
    | some q =>
      rw [hold] at hspelling
      obtain rfl : q.1 = spelling := hspelling
      exact Or.inr ⟨q.2, rfl⟩
  · rw [NotTerminals.remember, TreeMap.getElem?_insert_ne hpath] at h
    exact Or.inr h

theorem CacheSound.remember {cache : NotTerminals} (h : CacheSound content cache) {p : Str} {t : Nat}
    (hterm : NoTerminal (content (components p) t)) (hcr : p.getLast? ≠ some '\r') :
    CacheSound content (cache.remember p t) where
  no_terminal path spelling t' h' := by
    rcases getElem?_remember h' with ⟨rfl, rfl, -⟩ | hold
    · exact hterm
    · exact h.no_terminal path spelling t' hold
  spelled path spelling t' h' := by
    rcases getElem?_remember h' with ⟨rfl, -, rfl | ⟨old, hold⟩⟩ | hold
    · rfl
    · exact h.spelled _ spelling old hold
    · exact h.spelled path spelling t' hold
  no_cr path spelling t' h' := by
    rcases getElem?_remember h' with ⟨rfl, -, rfl | ⟨old, hold⟩⟩ | hold
    · exact hcr
    · exact h.no_cr _ spelling old hold
    · exact h.no_cr path spelling t' hold

theorem CacheSound.rememberAll : ∀ {l : List (Str × Nat)} {cache : NotTerminals},
    (∀ p ∈ l, NoTerminal (content (components p.1) p.2) ∧ p.1.getLast? ≠ some '\r') → CacheSound content cache →
    CacheSound content (l.foldl (fun m p => m.remember p.1 p.2) cache)
  | [], _, _, h => h
  | p :: l, cache, hl, h => by
    obtain ⟨hp, hl⟩ := List.forall_mem_cons.1 hl
    rw [List.foldl_cons]
    exact rememberAll hl (h.remember hp.1 hp.2)

/-- What is saved, in any order, and loaded again is sound as before. -/
theorem CacheSound.reload {cache : NotTerminals} (h : CacheSound content cache) {pairs : List (Str × Nat)}
    (hpairs : pairs.Perm (cache.toList.map Prod.snd)) : CacheSound content (loadText (saveText pairs)) := by
  have hmem : ∀ p ∈ pairs, ∃ path : List Str, cache[path]? = some p := fun p hp => by
    obtain ⟨⟨path, q⟩, hq, rfl⟩ := List.mem_map.1 (hpairs.mem_iff.1 hp)
    exact ⟨path, ExtTreeMap.mem_toList_iff_getElem?_eq_some.1 hq⟩
  have hcr : ∀ p ∈ pairs, p.1.getLast? ≠ some '\r' := fun p hp => by
    obtain ⟨path, hpath⟩ := hmem p hp
    exact h.no_cr path p.1 p.2 hpath
  refine CacheSound.rememberAll (fun p hp => ?_) sound_empty
  have hp := mem_of_saved hcr hp
  obtain ⟨path, hpath⟩ := hmem p hp
  rw [h.spelled path p.1 p.2 hpath]
  exact ⟨h.no_terminal path p.1 p.2 hpath, hcr p hp⟩

/-- The files are as their paths and times say. -/
def Determined (content : List Str → Nat → Str) (host : Host) (mtime : Str → Nat) (items : List (Str × Str)) : Prop :=
  ∀ p ∈ items, ∀ text, host.readFile p.2 = some text → text = content (components p.2) (mtime p.2)

theorem empty_fresh (path : Str) : (∅ : NotTerminals).time? path ≠ some (mtime path) := by
  rw [time?_empty]
  exact nofun

/-- The plain scan takes what is accepted. -/
theorem plainScan_eq : ∀ items : List (Str × Str),
    plainScan host excluded items = items.findSome? (accept host mtime excluded ∅)
  | [] => rfl
  | (id, path) :: rest => by
    have ih := plainScan_eq rest
    rw [plainScan, List.findSome?_cons]
    by_cases hex : id ∈ excluded
    · have hnone : accept host mtime excluded ∅ (id, path) = none := if_pos (Or.inl hex)
      rw [if_pos (List.contains_iff_mem.2 hex), hnone]
      exact ih
    · rw [if_neg (hex ∘ List.contains_iff_mem.1), accept_of_fresh hex (empty_fresh path)]
      cases hread : host.readFile path with
      | none =>
        rw [readEntry_of_none hread]
        exact ih
      | some text =>
        rw [readEntry_of_some hread]
        dsimp only
        cases DesktopEntry.parse path text with
        | error _ => exact ih
        | ok e =>
          dsimp only
          split
          · rfl
          · exact ih

/-- What a sound cache holds is not accepted anyway. -/
theorem accept_of_sound {cache : NotTerminals} (h : CacheSound content cache) {p : Str × Str}
    (hfile : ∀ text, host.readFile p.2 = some text → text = content (components p.2) (mtime p.2)) :
    accept host mtime excluded cache p = accept host mtime excluded ∅ p := by
  by_cases hex : p.1 ∈ excluded
  · exact (if_pos (Or.inl hex)).trans (if_pos (Or.inl hex)).symm
  by_cases hhit : cache.time? p.2 = some (mtime p.2)
  · obtain ⟨spelling, hpath⟩ := time?_eq_some.1 hhit
    have hno := h.no_terminal _ _ _ hpath
    cases hread : host.readFile p.2 with
    | none =>
      unfold accept
      rw [readEntry_of_none hread, ite_self, ite_self]
    | some text =>
      rw [← hfile text hread] at hno
      rw [accept_of_noTerminal hread hno, accept_of_noTerminal hread hno]
  · exact (accept_of_fresh hex hhit).trans (accept_of_fresh hex (empty_fresh p.2)).symm

/-- **A scan** keeps the cache sound, and a sound cache changes nothing. -/
theorem scanFrom_of_sound {items : List (Str × Str)} {cache : NotTerminals} {changed : Bool}
    (hdet : Determined content host mtime items) (hcr : ∀ p ∈ items, p.2.getLast? ≠ some '\r')
    (h : CacheSound content cache) :
    CacheSound content (scanFrom host mtime excluded items cache changed).cache ∧
      (scanFrom host mtime excluded items cache changed).found = plainScan host excluded items := by
  rw [@plainScan_eq host mtime excluded items]
  refine scanFrom_spec (fun p hp text hread hno cache hcache => ?_)
    (fun p hp cache hcache => accept_of_sound hcache (hdet p hp)) h
  rw [hdet p hp text hread] at hno
  exact hcache.remember hno (hcr p hp)

end

/-! ## Scans one after the other -/

/-- A process that looks for a terminal: what is on its host then. -/
structure Visit where
  host : Host
  mtime : Str → Nat
  excluded : List Str

def Visit.listed (v : Visit) : List (Str × Str) := listEntries v.host "applications".toList

def Visit.scan (v : Visit) : Scan := scanForTerminal v.host v.mtime v.excluded

/-- The visit has the files as their paths and times say, and the cache that was left for it, if it can read it;
`caches` has the cache files. -/
structure Visit.Fits (v : Visit) (content : List Str → Nat → Str) (caches : List Str → Option Str) : Prop where
  determined : Determined content v.host v.mtime v.listed
  reads : ∀ p text, notTerminalsPath v.host = some p → v.host.readFile p = some text →
    caches (components p) = some text

/-- The cache files after a visit: as they were, also if the file could not be opened, or with what was saved, in any
order. -/
inductive Visit.Leaves (v : Visit) (caches : List Str → Option Str) : (List Str → Option Str) → Prop
  | same : v.Leaves caches caches
  | saved {p : Str} {pairs : List (Str × Nat)} : v.scan.changed = true → notTerminalsPath v.host = some p →
      pairs.Perm (v.scan.cache.toList.map Prod.snd) →
        v.Leaves caches (Function.update caches (components p) (some (saveText pairs)))

/-- The cache files after any visits, from empty ones. -/
inductive Visited (content : List Str → Nat → Str) : (List Str → Option Str) → Prop
  | start {caches : List Str → Option Str} : (∀ p text, caches p = some text → text = []) → Visited content caches
  | visit {caches caches' : List Str → Option Str} {v : Visit} : Visited content caches → v.Fits content caches →
      v.Leaves caches caches' → Visited content caches'

section
variable {content : List Str → Nat → Str} {caches caches' : List Str → Option Str} {v : Visit}

/-- Every cache file is sound. -/
def CachesSound (content : List Str → Nat → Str) (caches : List Str → Option Str) : Prop :=
  ∀ p text, caches p = some text → CacheSound content (loadText text)

theorem CachesSound.load (h : CachesSound content caches) (hfits : v.Fits content caches) :
    CacheSound content (loadNotTerminals v.host) := by
  rw [loadNotTerminals_eq]
  cases hpath : notTerminalsPath v.host with
  | none => exact sound_empty
  | some p =>
    rw [Option.bind_some]
    cases hread : v.host.readFile p with
    | none => exact sound_empty
    | some text => exact h (components p) text (hfits.reads p text hpath hread)

/-- A visit that finds sound caches. -/
theorem CachesSound.scan (h : CachesSound content caches) (hfits : v.Fits content caches) :
    CacheSound content v.scan.cache ∧ v.scan.found = plainScan v.host v.excluded v.listed :=
  scanFrom_of_sound hfits.determined (fun _ hp => getLast?_of_listed hp) (h.load hfits)

/-- **A visit** leaves sound caches. -/
theorem CachesSound.visit (h : CachesSound content caches) (hfits : v.Fits content caches)
    (hleaves : v.Leaves caches caches') : CachesSound content caches' := by
  cases hleaves with
  | same => exact h
  | saved hchanged hpath hpairs =>
    rename_i path pairs
    intro p text htext
    by_cases hp : p = components path
    · subst hp
      rw [Function.update_self] at htext
      exact Option.some.inj htext ▸ (h.scan hfits).1.reload hpairs
    · rw [Function.update_of_ne hp] at htext
      exact h p text htext

theorem cachesSound_of_visited (h : Visited content caches) : CachesSound content caches := by
  induction h with
  | start hempty =>
    intro p text htext
    rw [hempty p text htext]
    exact sound_empty
  | visit _ hfits hleaves ih => exact ih.visit hfits hleaves

/-- **The cache changes no result**: after any visits, a scan finds what it finds without a cache, and every pair that
it loads belongs to an entry that is no terminal. -/
theorem scan_found_eq_plain (hvisited : Visited content caches) (hfits : v.Fits content caches) :
    v.scan.found = plainScan v.host v.excluded v.listed ∧
    ∀ path t, (loadNotTerminals v.host).time? path = some t →
      ∃ e, DesktopEntry.parse path (content (components path) t) = .ok e ∧ isTerminal e = false := by
  have hsound := cachesSound_of_visited hvisited
  refine ⟨(hsound.scan hfits).2, fun path t hload => ?_⟩
  obtain ⟨spelling, hpath⟩ := time?_eq_some.1 hload
  exact (hsound.load hfits).no_terminal (components path) spelling t hpath path

end

/-- What the entries have, by the components of their paths. -/
def entryText (path : List Str) : Option Str :=
  if path = components "/h/applications/editor.desktop".toList then
    some "[Desktop Entry]\nType=Application\nName=E\nExec=t\nCategories=TextEditor;\n".toList
  else if path = components "/h/applications/t.desktop".toList then
    some "[Desktop Entry]\nType=Application\nName=T\nExec=t\nCategories=TerminalEmulator;\n".toList
  else none

/-- A host with these entries below `home`, and this cache. -/
def cachingHost (home : Str) (names : List Str) (cache : Option Str) : Host where
  env name :=
    if name = "XDG_DATA_HOME".toList then some home
    else if name = "XDG_DATA_DIRS".toList then some "/s".toList
    else if name = "XDG_CACHE_HOME".toList then some "/c".toList
    else if name = "PATH".toList then some "/b".toList
    else none
  readFile path :=
    if components path = components "/c/wsmr/not-terminals.list".toList then cache else entryText (components path)
  isExecutable path := path = "/b/t".toList
  dir path := if components path = components "/h/applications".toList then some (some (names.map .file)) else none

/-- There is an editor. -/
def firstVisit : Visit := ⟨cachingHost "/h".toList ["editor.desktop".toList] none, fun _ => 7, []⟩

/-- There is a terminal as well, and the data directory is spelled in another way. -/
def secondVisit : Visit where
  host := cachingHost "/h/.".toList ["editor.desktop".toList, "t.desktop".toList]
    (some (saveText [("/h/applications/editor.desktop".toList, 7)]))
  mtime _ := 7
  excluded := []

theorem collect_files {dir rel : Str} : ∀ {names : List Str}, (∀ name ∈ names, isDesktopFile name = true) →
    collect dir rel (names.map .file) = names.map fun name => (entryIdOf (pathJoin rel name), pathJoin dir name)
  | [], _ => by
    rw [List.map_nil, collect]
    rfl
  | name :: names, h => by
    obtain ⟨hname, hnames⟩ := List.forall_mem_cons.1 h
    rw [List.map_cons, collect, if_pos hname, collect_files hnames]
    rfl

theorem listed_firstVisit : firstVisit.listed =
    [("editor.desktop".toList, "/h/applications/editor.desktop".toList)] := by
  have hcollect := @collect_files "/h/applications".toList [] ["editor.desktop".toList] (by decide)
  have hlisted : firstVisit.listed = collect "/h/applications".toList [] (["editor.desktop".toList].map .file) ++ [] :=
    rfl
  rw [hlisted, hcollect]
  decide

theorem listed_secondVisit : secondVisit.listed =
    [("editor.desktop".toList, "/h/./applications/editor.desktop".toList),
      ("t.desktop".toList, "/h/./applications/t.desktop".toList)] := by
  have hcollect := @collect_files "/h/./applications".toList [] ["editor.desktop".toList, "t.desktop".toList] (by decide)
  have hlisted : secondVisit.listed = collect "/h/./applications".toList []
      (["editor.desktop".toList, "t.desktop".toList].map .file) ++ [] := rfl
  rw [hlisted, hcollect]
  decide

/-- The editor is remembered. -/
theorem scan_firstVisit : firstVisit.scan.changed = true ∧
    firstVisit.scan.cache.toList.map Prod.snd = [("/h/applications/editor.desktop".toList, 7)] := by
  have hscan : firstVisit.scan = scanFrom firstVisit.host (fun _ => 7) [] firstVisit.listed
      (loadNotTerminals firstVisit.host) false := rfl
  rw [hscan, listed_firstVisit]
  decide +kernel

/-- The cache files between both visits. -/
def cachesBetween : List Str → Option Str := Function.update (fun _ => none)
  (components "/c/wsmr/not-terminals.list".toList) (some (saveText [("/h/applications/editor.desktop".toList, 7)]))

/-- What the entries have; they are never changed. -/
def entryContent (path : List Str) (_ : Nat) : Str := (entryText path).getD []

theorem determined_cachingHost {home : Str} {names : List Str} {cache : Option Str} {items : List (Str × Str)}
    (h : ∀ p ∈ items, components p.2 ≠ components "/c/wsmr/not-terminals.list".toList) :
    Determined entryContent (cachingHost home names cache) (fun _ => 7) items := by
  intro p hp text hread
  have hentry : (cachingHost home names cache).readFile p.2 = entryText (components p.2) := if_neg (h p hp)
  rw [hentry] at hread
  rw [entryContent, hread]
  rfl

theorem fits_firstVisit : firstVisit.Fits entryContent fun _ => none where
  determined := by
    rw [listed_firstVisit]
    exact determined_cachingHost (by decide)
  reads p text hpath hread := by
    obtain rfl : "/c/wsmr/not-terminals.list".toList = p := Option.some.inj hpath
    cases hread

theorem fits_secondVisit : secondVisit.Fits entryContent cachesBetween where
  determined := by
    rw [listed_secondVisit]
    exact determined_cachingHost (by decide)
  reads p text hpath hread := by
    obtain rfl : "/c/wsmr/not-terminals.list".toList = p := Option.some.inj hpath
    rw [← hread]
    exact Function.update_self _ _ _

theorem visited_cachesBetween : Visited entryContent cachesBetween := by
  have hleaves := @Visit.Leaves.saved firstVisit (fun _ => none) "/c/wsmr/not-terminals.list".toList
    [("/h/applications/editor.desktop".toList, 7)] scan_firstVisit.1 (by decide)
    (List.Perm.of_eq scan_firstVisit.2.symm)
  exact .visit (.start fun _ _ h => by cases h) fits_firstVisit hleaves

/-- The second visit passes over the editor, which the first one has left in the cache under another spelling, and
finds the terminal. -/
theorem scan_found_second :
    (loadNotTerminals secondVisit.host).time? "/h/./applications/editor.desktop".toList = some 7 ∧
      secondVisit.scan.found.map Prod.fst = some "t.desktop".toList ∧
      secondVisit.scan.found = plainScan secondVisit.host secondVisit.excluded secondVisit.listed ∧
      ∀ path t, (loadNotTerminals secondVisit.host).time? path = some t →
        ∃ e, DesktopEntry.parse path (entryContent (components path) t) = .ok e ∧ isTerminal e = false := by
  have hscan : secondVisit.scan = scanFrom secondVisit.host (fun _ => 7) [] secondVisit.listed
      (loadNotTerminals secondVisit.host) false := rfl
  have hfound : secondVisit.scan.found.map Prod.fst = some "t.desktop".toList := by
    rw [hscan, listed_secondVisit]
    decide +kernel
  exact ⟨by decide +kernel, hfound, scan_found_eq_plain visited_cachesBetween fits_secondVisit⟩

end Wsmr
