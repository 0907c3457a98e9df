import Wsmr.Filter
import Wsmr.Lib.TreeMap

/-!
# Environment snapshots and the cleanup list (`src/env/files.rs`)

The functions work on the text of a file; which file it is and how it is replaced atomically is
`Sysd/World.lean`'s business. `none` is a missing file.

* `parseEnvNul_serializeEnv` — a snapshot is read back as the kept names of what was saved.
* `readCleanupEntries_writeCleanupEntries` — a cleanup list is read back exactly.
-/

namespace Wsmr

open Text Std

/-- `BTreeMap<String, String>` -/
abbrev Env := ExtTreeMap Str Str

inductive Sep where
  | nul | newline

def Sep.ch : Sep → Char
  | .nul => '\x00'
  | .newline => '\n'

/-- `KEY=VALUE` -/
def assignment (p : Str × Str) : Str := p.1 ++ '=' :: p.2

/-- The records of `env` with valid names, joined by `sep`; the newline form ends in a newline. -/
def serializeEnv (env : Env) (sep : Sep) : Str :=
  let out := List.intercalate [sep.ch] ((env.toList.filter fun p => keepName p.1).map assignment)
  match sep with
  | .newline => if out = [] then out else out ++ ['\n']
  | .nul => out

/-- One chunk of NUL-separated data; a chunk without `=` or with an invalid name is dropped. -/
def parseRecord (chunk : Str) : Option (Str × Str) :=
  if chunk = [] then none
  else match splitOnce '=' chunk with
    | some (k, v) => if keepName k then some (k, v) else none
    | none => none

/-- Later records win. -/
def parseEnvNul (data : Str) : Env :=
  ((data.splitOn '\x00').filterMap parseRecord).foldl (fun map p => map.insert p.1 p.2) ∅

def loadEnv : Option Str → Env
  | some s => parseEnvNul s
  | none => ∅

/-- No value contains the record separator. -/
def NulFree (env : Env) : Prop := ∀ k v : Str, env[k]? = some v → '\x00' ∉ v

/-- The part of `env` with valid names. -/
def Env.kept (env : Env) : Env := env.filter fun k _ => keepName k

theorem getElem?_kept (env : Env) (k : Str) :
    env.kept[k]? = if keepName k then env[k]? else none := by
  unfold Env.kept
  rw [ExtTreeMap.getElem?_filter']
  cases env[k]? <;> cases keepName k <;> rfl

theorem keepName_of_kept {env : Env} {k v : Str} (h : env.kept[k]? = some v) : keepName k = true := by
  rw [getElem?_kept] at h
  by_contra hk
  simp [hk] at h

theorem parseRecord_assignment {k v : Str} (hk : keepName k = true) :
    parseRecord (assignment (k, v)) = some (k, v) := by
  have heq : '=' ∉ k := not_mem_of_keepName hk (by decide)
  have hne : k ++ '=' :: v ≠ [] := by simp
  simp [parseRecord, assignment, splitOnce_append v heq, hk]

theorem nul_not_mem_assignment {k v : Str} (hk : keepName k = true) (hv : '\x00' ∉ v) :
    '\x00' ∉ assignment (k, v) := by
  have := not_mem_of_keepName hk (c := '\x00') (by decide)
  simp [assignment, this, hv]

/-- The chunks of a saved snapshot are its records. -/
theorem splitOn_serializeEnv {env : Env} (h : NulFree env) :
    ((serializeEnv env .nul).splitOn '\x00').filterMap parseRecord =
      env.toList.filter fun p => keepName p.1 := by
  have hmem : ∀ p ∈ env.toList.filter (fun p => keepName p.1), keepName p.1 = true ∧ '\x00' ∉ p.2 := by
    rintro ⟨k, v⟩ hp
    obtain ⟨hin, hk⟩ := List.mem_filter.1 hp
    exact ⟨hk, h k v (ExtTreeMap.mem_toList_iff_getElem?_eq_some.1 hin)⟩
  simp only [serializeEnv, Sep.ch]
  generalize env.toList.filter (fun p => keepName p.1) = ps at hmem ⊢
  by_cases hps : ps = []
  · subst hps
    rfl
  rw [List.splitOn_intercalate '\x00' ?_ (by simpa using hps), List.filterMap_map]
  · have hrec : ∀ p ∈ ps, (parseRecord ∘ assignment) p = some p := fun p hp =>
      parseRecord_assignment (hmem p hp).1
    rw [List.filterMap_congr hrec, List.filterMap_some]
  · rintro l hl
    obtain ⟨⟨k, v⟩, hp, rfl⟩ := List.mem_map.1 hl
    exact nul_not_mem_assignment (hmem _ hp).1 (hmem _ hp).2

/-- **Snapshot round trip.** Reading back a saved NUL-separated snapshot gives its valid names. -/
theorem parseEnvNul_serializeEnv {env : Env} (h : NulFree env) :
    parseEnvNul (serializeEnv env .nul) = env.kept := by
  apply ExtTreeMap.ext_getElem?
  intro k
  unfold parseEnvNul
  rw [splitOn_serializeEnv h, ← ExtTreeMap.ofList_eq_foldl, TreeMap.getElem?_ofList_filter,
    getElem?_kept]

/-- Where a binding comes from. -/
theorem mem_records_of_parseEnvNul {data k v : Str} (h : (parseEnvNul data)[k]? = some v) :
    (k, v) ∈ (data.splitOn '\x00').filterMap parseRecord := by
  unfold parseEnvNul at h
  rw [← ExtTreeMap.ofList_eq_foldl] at h
  exact TreeMap.mem_of_getElem?_ofList h

/-- Whatever the data, only kept names with NUL-free values come out. -/
theorem parseEnvNul_wf {data k v : Str} (h : (parseEnvNul data)[k]? = some v) :
    keepName k = true ∧ '\x00' ∉ v := by
  obtain ⟨chunk, hc, hp⟩ := List.mem_filterMap.1 (mem_records_of_parseEnvNul h)
  unfold parseRecord at hp
  split at hp
  · cases hp
  · split at hp
    · split at hp
      · rename_i hs hk
        obtain ⟨rfl, -⟩ := splitOnce_eq_some hs
        obtain ⟨rfl, rfl⟩ := Prod.mk.inj (Option.some.inj hp)
        exact ⟨hk, fun hv => not_mem_of_mem_splitOn hc (by simp [hv])⟩
      · cases hp
    · cases hp

theorem keepName_of_parseEnvNul {data k v : Str} (h : (parseEnvNul data)[k]? = some v) :
    keepName k = true := (parseEnvNul_wf h).1

theorem nulFree_parseEnvNul (data : Str) : NulFree (parseEnvNul data) := fun _ _ h => (parseEnvNul_wf h).2

/-! ## The generation-tagged cleanup list -/

structure CleanupEntry where
  generation : Str
  name : Str
  deriving DecidableEq, Repr

/-- The derived lexicographic order. -/
instance : Ord CleanupEntry where
  compare := compareLex (compareOn CleanupEntry.generation) (compareOn CleanupEntry.name)

instance : TransOrd CleanupEntry :=
  inferInstanceAs (TransCmp (compareLex (compareOn CleanupEntry.generation) (compareOn CleanupEntry.name)))

instance : LawfulEqOrd CleanupEntry where
  eq_of_compare {a b} h := by
    obtain ⟨h1, h2⟩ := compareLex_eq_eq.1 h
    have h1 : a.generation = b.generation := LawfulEqCmp.eq_of_compare h1
    have h2 : a.name = b.name := LawfulEqCmp.eq_of_compare h2
    cases a; cases b; simp_all

/-- `BTreeSet<CleanupEntry>` -/
abbrev Entries := ExtTreeSet CleanupEntry

/-- A malformed line is ignored. -/
def parseEntry (l : Str) : Option CleanupEntry :=
  match splitOnce ' ' l with
  | some (generation, name) =>
    if generation ≠ [] ∧ keepName name then some ⟨generation, name⟩ else none
  | none => none

def readCleanupEntries : Option Str → Entries
  | some s => ExtTreeSet.ofList ((lines s).filterMap parseEntry)
  | none => ∅

def CleanupEntry.line (e : CleanupEntry) : Str := e.generation ++ ' ' :: e.name

/-- The text `write_cleanup_entries` leaves in the file. -/
def writeCleanupEntries (entries : Entries) : Str := unlines (entries.toList.map CleanupEntry.line)

/-- A generation id that survives the line format. -/
def TagOk (g : Str) : Prop := g ≠ [] ∧ ' ' ∉ g ∧ '\n' ∉ g

/-- An entry that survives the line format. -/
structure CleanupEntry.Valid (e : CleanupEntry) : Prop where
  tag : TagOk e.generation
  name : keepName e.name = true

def ValidEntries (s : Entries) : Prop := ∀ e ∈ s, e.Valid

theorem stripCr_line {e : CleanupEntry} (h : keepName e.name = true) : stripCr e.line = e.line := by
  have hne := ne_nil_of_keepName h
  have hcr : '\r' ∉ e.name := not_mem_of_keepName h (by decide)
  have hlast : e.line.getLast? ≠ some '\r' := by
    rw [CleanupEntry.line, List.getLast?_append_cons, List.getLast?_cons_of_ne_nil hne]
    exact fun he => hcr (List.mem_of_getLast? he)
  simp [stripCr, hlast]

theorem parseEntry_line {e : CleanupEntry} (h : e.Valid) : parseEntry e.line = some e := by
  simp [parseEntry, CleanupEntry.line, splitOnce_append _ h.tag.2.1, h.tag.1, h.name]

theorem newline_not_mem_line_entry {e : CleanupEntry} (h : e.Valid) : '\n' ∉ e.line := by
  have := not_mem_of_keepName h.name (c := '\n') (by decide)
  simp [CleanupEntry.line, h.tag.2.2, this]

theorem filterMap_parseEntry_lines {es : List CleanupEntry} (h : ∀ e ∈ es, e.Valid) :
    (lines (unlines (es.map CleanupEntry.line))).filterMap parseEntry = es := by
  rw [lines_unlines fun l hl => by
    obtain ⟨e, he, rfl⟩ := List.mem_map.1 hl
    exact newline_not_mem_line_entry (h e he)]
  rw [List.map_map, List.filterMap_map]
  have hid : ∀ e ∈ es, (parseEntry ∘ stripCr ∘ CleanupEntry.line) e = some e := fun e he => by
    simp [stripCr_line (h e he).name, parseEntry_line (h e he)]
  rw [List.filterMap_congr hid, List.filterMap_some]

/-- **Cleanup-list round trip.** -/
theorem readCleanupEntries_writeCleanupEntries {s : Entries} (h : ValidEntries s) :
    readCleanupEntries (some (writeCleanupEntries s)) = s := by
  apply ExtTreeSet.ext_mem
  intro e
  simp only [readCleanupEntries, writeCleanupEntries]
  rw [filterMap_parseEntry_lines fun e he => h e (ExtTreeSet.mem_toList.1 he), ExtTreeSet.mem_ofList,
    List.contains_eq_mem, decide_eq_true_eq, ExtTreeSet.mem_toList]

theorem valid_of_parseEntry {l : Str} {e : CleanupEntry} (h : parseEntry l = some e) (hnl : '\n' ∉ l) :
    e.Valid ∧ l = e.line := by
  unfold parseEntry at h
  split at h
  · rename_i g n hs
    split at h
    · rename_i hc
      obtain rfl := Option.some.inj h
      obtain ⟨rfl, hsp⟩ := splitOnce_eq_some hs
      simp only [List.mem_append, not_or] at hnl
      exact ⟨⟨⟨hc.1, hsp, hnl.1⟩, hc.2⟩, rfl⟩
    · cases h
  · cases h

/-- Whatever the text, the entries read from it survive being written again. -/
theorem validEntries_read (s : Option Str) : ValidEntries (readCleanupEntries s) := by
  intro e he
  cases s with
  | none => simp [readCleanupEntries] at he
  | some s =>
    simp only [readCleanupEntries, ExtTreeSet.mem_ofList, List.contains_eq_mem, decide_eq_true_eq,
      List.mem_filterMap] at he
    obtain ⟨l, hl, hp⟩ := he
    exact (valid_of_parseEntry hp (newline_not_mem_line hl)).1

/-! ## Lines of no entry -/

/-- A line that no entry has, be it with a carriage return. -/
def Malformed (l : Str) : Prop := ∀ e : CleanupEntry, e.Valid → l ≠ e.line ∧ l ≠ e.line ++ ['\r']

theorem parseEntry_of_malformed {l : Str} (h : Malformed l) (hnl : '\n' ∉ l) : parseEntry (stripCr l) = none := by
  cases hp : parseEntry (stripCr l) with
  | none => rfl
  | some e =>
    have hstrip : '\n' ∉ stripCr l := fun hmem => by
      unfold stripCr at hmem
      split at hmem
      · exact hnl ((List.dropLast_sublist l).subset hmem)
      · exact hnl hmem
    obtain ⟨hvalid, hline⟩ := valid_of_parseEntry hp hstrip
    rcases stripCr_eq_iff.1 hline with hl | hl
    · exact absurd hl (h e hvalid).2
    · exact absurd hl.1 (h e hvalid).1

/-- The entries of a cleanup list survive malformed lines anywhere between theirs. -/
theorem readCleanupEntries_of_sublist {s : Entries} (hs : ValidEntries s) {ls : List Str} (hnl : ∀ l ∈ ls, '\n' ∉ l)
    (hsub : (s.toList.map CleanupEntry.line).Sublist ls)
    (hrest : ∀ l ∈ ls, l ∈ s.toList.map CleanupEntry.line ∨ Malformed l) :
    readCleanupEntries (some (unlines ls)) = s := by
  apply ExtTreeSet.ext_mem
  intro e
  simp only [readCleanupEntries, ExtTreeSet.mem_ofList, List.contains_eq_mem, decide_eq_true_eq, List.mem_filterMap,
    lines_unlines hnl, List.mem_map]
  have hread : ∀ e ∈ s, parseEntry (stripCr e.line) = some e := fun e he => by
    rw [stripCr_line (hs e he).name, parseEntry_line (hs e he)]
  constructor
  · rintro ⟨_, ⟨l, hl, rfl⟩, hp⟩
    rcases hrest l hl with hl' | hbad
    · obtain ⟨e', he', rfl⟩ := List.mem_map.1 hl'
      rw [hread e' (ExtTreeSet.mem_toList.1 he')] at hp
      exact Option.some.inj hp ▸ ExtTreeSet.mem_toList.1 he'
    · rw [parseEntry_of_malformed hbad (hnl l hl)] at hp
      cases hp
  · intro he
    exact ⟨_, ⟨e.line, hsub.subset (List.mem_map_of_mem (ExtTreeSet.mem_toList.2 he)), rfl⟩, hread e he⟩

/-- **Session files round trip**: a snapshot as the names that are kept, a cleanup list as it was, whatever malformed
lines are put between its own. -/
theorem session_files_round_trip :
    (∀ env : Env, NulFree env → parseEnvNul (serializeEnv env .nul) = env.kept) ∧
    (∀ s : Entries, ValidEntries s → readCleanupEntries (some (writeCleanupEntries s)) = s) ∧
    ∀ s : Entries, ValidEntries s → ∀ ls : List Str, (∀ l ∈ ls, '\n' ∉ l) →
      (s.toList.map CleanupEntry.line).Sublist ls →
      (∀ l ∈ ls, l ∈ s.toList.map CleanupEntry.line ∨ Malformed l) →
      readCleanupEntries (some (unlines ls)) = s :=
  ⟨fun _ h => parseEnvNul_serializeEnv h, fun _ h => readCleanupEntries_writeCleanupEntries h,
    fun _ hs _ hnl hsub hrest => readCleanupEntries_of_sublist hs hnl hsub hrest⟩

end Wsmr
