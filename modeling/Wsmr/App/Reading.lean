import Wsmr.App.Entry
import Wsmr.Lib.TreeMap

/-!
# What `parse` reads (`src/app/entry.rs`)

A line of a desktop entry is the header of a group, a value of a key, or nothing. `get` finds the last value that
the text gives to the key in the group (`get_parse`).
-/

namespace Wsmr

open Text Std

namespace DesktopEntry

/-! ## Lines -/

inductive Line where
  | nothing
  | header (name : Str)
  | value (key value : Str)
  deriving DecidableEq, Repr

/-- What a line says. -/
def lineOf (raw : Str) : Line :=
  let line := trimEndMatches '\r' raw
  let trimmed := trim line
  if trimmed = [] || trimmed.head? = some '#' then .nothing
  else
    match (stripPrefix "[".toList trimmed).bind (stripSuffix "]".toList) with
    | some name => .header name
    | none =>
      match splitOnce '=' line with
      | some (k, v) => .value (trim k) v
      | none => .nothing

theorem readLine_eq (r : Reader) (raw : Str) : readLine r raw =
    match lineOf raw, r.current with
    | .header name, _ => ⟨r.groups.insert name (r.groups[name]?.getD ∅), some name⟩
    | .value k v, some g => ⟨r.groups.insert g ((r.groups[g]?.getD ∅).insert k v), r.current⟩
    | _, _ => r := by
  unfold readLine lineOf
  dsimp only
  split
  · rfl
  · cases (stripPrefix "[".toList (trim (trimEndMatches '\r' raw))).bind (stripSuffix "]".toList) with
    | some name => rfl
    | none =>
      cases splitOnce '=' (trimEndMatches '\r' raw) with
      | none => cases r.current <;> rfl
      | some p => cases r.current <;> rfl

/-- A value, with the group it stands in. -/
structure Entry where
  group : Str
  key : Str
  value : Str
  deriving DecidableEq, Repr

/-- The group after a line. -/
def groupAfter (current : Option Str) (raw : Str) : Option Str :=
  match lineOf raw with
  | .header name => some name
  | _ => current

/-- The value of a line, when it stands in a group. -/
def entryOf (current : Option Str) (raw : Str) : Option Entry :=
  match lineOf raw, current with
  | .value k v, some g => some ⟨g, k, v⟩
  | _, _ => none

theorem entryOf_value {raw k v : Str} (h : lineOf raw = .value k v) (group : Str) :
    entryOf (some group) raw = some ⟨group, k, v⟩ := by
  simp only [entryOf, h]

theorem groupAfter_value {raw k v : Str} (h : lineOf raw = .value k v) (current : Option Str) :
    groupAfter current raw = current := by
  simp only [groupAfter, h]

/-- The last header. -/
theorem foldl_groupAfter_eq_some {group : Str} (ls : List Str) : ∀ {current : Option Str},
    ls.foldl groupAfter current = some group → current = some group ∨ ∃ raw ∈ ls, lineOf raw = .header group := by
  induction ls with
  | nil => exact Or.inl
  | cons raw ls ih =>
    intro current h
    rw [List.exists_mem_cons_iff, ← or_assoc]
    refine (ih h).imp_left fun hnext => ?_
    unfold groupAfter at hnext
    split at hnext
    · rename_i name hheader
      exact Or.inr (hheader.trans (congrArg Line.header (Option.some.inj hnext)))
    · exact Or.inl hnext

/-- The values of a text in their order. -/
def entriesFrom (current : Option Str) : List Str → List Entry
  | [] => []
  | raw :: ls => (entryOf current raw).toList ++ entriesFrom (groupAfter current raw) ls

theorem entriesFrom_append (ls ls' : List Str) : ∀ current : Option Str,
    entriesFrom current (ls ++ ls') = entriesFrom current ls ++ entriesFrom (ls.foldl groupAfter current) ls' := by
  induction ls with
  | nil => exact fun _ => rfl
  | cons raw ls ih =>
    intro current
    rw [List.cons_append, entriesFrom, entriesFrom, ih, List.append_assoc]
    rfl

/-- The last value for the key in the group. -/
def lookup (es : List Entry) (group key : Str) : Option Str :=
  (es.filter fun e => e.group = group ∧ e.key = key).getLast?.map Entry.value

theorem lookup_append (es es' : List Entry) (group key : Str) :
    lookup (es ++ es') group key = (lookup es' group key).or (lookup es group key) := by
  unfold lookup
  rw [List.filter_append, List.getLast?_append]
  cases (es'.filter _).getLast? <;> simp

/-! ## The whole text -/

/-- The value in the variables of the loop. -/
def Reader.at (r : Reader) (group key : Str) : Option Str := (r.groups[group]?.getD ∅)[key]?

theorem readLine_current (r : Reader) (raw : Str) : (readLine r raw).current = groupAfter r.current raw := by
  rw [readLine_eq]
  unfold groupAfter
  cases lineOf raw with
  | nothing => rfl
  | header name => rfl
  | value k v =>
    obtain ⟨groups, current⟩ := r
    cases current <;> rfl

theorem readLine_at (r : Reader) (raw group key : Str) :
    (readLine r raw).at group key = (lookup (entryOf r.current raw).toList group key).or (r.at group key) := by
  obtain ⟨groups, current⟩ := r
  rw [readLine_eq]
  unfold entryOf Reader.at
  cases lineOf raw with
  | nothing => rfl
  | header name =>
    dsimp only
    rw [ExtTreeMap.getElem?_insert]
    split
    · rename_i h
      rw [LawfulEqCmp.eq_of_compare h]
      rfl
    · rfl
  | value k v =>
    cases current with
    | none => rfl
    | some g =>
      dsimp only
      rw [ExtTreeMap.getElem?_insert]
      split
      · rename_i h
        obtain rfl := LawfulEqCmp.eq_of_compare h
        rw [Option.getD_some, ExtTreeMap.getElem?_insert]
        by_cases hk : k = key
        · simp [lookup, hk]
        · rw [if_neg (mt LawfulEqCmp.eq_of_compare hk)]
          simp [lookup, hk]
      · rename_i h
        have hg : g ≠ group := by
          rintro rfl
          exact h ReflCmp.compare_self
        simp [lookup, hg]

/-- **What is read of the lines** is the last value for each key in each group. -/
theorem foldl_readLine_at (ls : List Str) (group key : Str) : ∀ r : Reader,
    (ls.foldl readLine r).at group key = (lookup (entriesFrom r.current ls) group key).or (r.at group key) := by
  induction ls with
  | nil => exact fun _ => rfl
  | cons raw ls ih =>
    intro r
    rw [List.foldl_cons, ih, readLine_current, readLine_at, entriesFrom, lookup_append, Option.or_assoc]

theorem mem_groups_readLine (r : Reader) (hcurrent : ∀ g ∈ r.current, g ∈ r.groups) (raw group : Str) :
    group ∈ (readLine r raw).groups ↔ group ∈ r.groups ∨ lineOf raw = .header group := by
  obtain ⟨groups, current⟩ := r
  rw [readLine_eq]
  cases lineOf raw with
  | nothing => simp
  | header name =>
    rw [ExtTreeMap.mem_insert, LawfulEqCmp.compare_eq_iff_eq, Line.header.injEq, or_comm]
  | value k v =>
    cases current with
    | none => simp
    | some g =>
      rw [ExtTreeMap.mem_insert, LawfulEqCmp.compare_eq_iff_eq]
      simp only [reduceCtorEq, or_false, or_iff_right_iff_imp]
      rintro rfl
      exact hcurrent g rfl

/-- The groups are those of the headers. -/
theorem mem_groups_foldl_readLine (ls : List Str) (group : Str) : ∀ r : Reader, (∀ g ∈ r.current, g ∈ r.groups) →
    (group ∈ (ls.foldl readLine r).groups ↔ group ∈ r.groups ∨ ∃ raw ∈ ls, lineOf raw = .header group) := by
  induction ls with
  | nil => simp
  | cons raw ls ih =>
    intro r hcurrent
    have hnext : ∀ g ∈ (readLine r raw).current, g ∈ (readLine r raw).groups := by
      intro g hg
      rw [mem_groups_readLine r hcurrent]
      rw [readLine_current] at hg
      exact (foldl_groupAfter_eq_some [raw] hg).imp (hcurrent g) fun ⟨_, hmem, hheader⟩ => List.mem_singleton.1 hmem ▸ hheader
    rw [List.foldl_cons, ih _ hnext, mem_groups_readLine r hcurrent, List.exists_mem_cons_iff, or_assoc]

/-! ## `parse` and `get` -/

/-- The group of the entry itself or of one of its actions. -/
def groupName : Option Str → Str
  | none => mainGroup
  | some a => "Desktop Action ".toList ++ a

def entries (content : Str) : List Entry := entriesFrom none (lines content)

def HasGroup (content group : Str) : Prop := ∃ raw ∈ lines content, lineOf raw = .header group

theorem group_eq (e : DesktopEntry) (action : Option Str) : e.group action = e.groups[groupName action]? := by
  cases action <;> rfl

theorem parse_ok_iff (filename content : Str) : (∃ e, parse filename content = .ok e) ↔ HasGroup content mainGroup := by
  have hmem := mem_groups_foldl_readLine (lines content) mainGroup ⟨∅, none⟩ nofun
  rw [ExtTreeMap.mem_iff_contains] at hmem
  unfold parse
  dsimp only
  split
  · rename_i h
    exact ⟨fun _ => (hmem.1 h).resolve_left (by simp), fun _ => ⟨_, rfl⟩⟩
  · rename_i h
    exact ⟨nofun, fun hg => absurd (hmem.2 (Or.inr hg)) h⟩

theorem groups_parse {filename content : Str} {e : DesktopEntry} (h : parse filename content = .ok e) :
    e.filename = filename ∧ e.groups = ((lines content).foldl readLine ⟨∅, none⟩).groups := by
  unfold parse at h
  dsimp only at h
  split at h
  · rw [← Except.ok.inj h]
    exact ⟨rfl, rfl⟩
  · cases h

theorem group_isSome_parse {filename content : Str} {e : DesktopEntry} (h : parse filename content = .ok e)
    (action : Option Str) : (e.group action).isSome = true ↔ HasGroup content (groupName action) := by
  rw [group_eq, (groups_parse h).2, ← ExtTreeMap.mem_iff_isSome_getElem?,
    mem_groups_foldl_readLine (lines content) _ ⟨∅, none⟩ nofun]
  exact or_iff_right (by simp)

/-- **`get` after `parse`.** -/
theorem get_parse {filename content : Str} {e : DesktopEntry} (h : parse filename content = .ok e) (key : Str)
    (action : Option Str) : e.get key action = lookup (entries content) (groupName action) key := by
  have hat := foldl_readLine_at (lines content) (groupName action) key ⟨∅, none⟩
  have hempty : Reader.at ⟨∅, none⟩ (groupName action) key = none := by simp [Reader.at]
  rw [hempty, Option.or_none] at hat
  unfold get entries
  rw [← hat, group_eq, (groups_parse h).2, Reader.at]
  cases ((lines content).foldl readLine ⟨∅, none⟩).groups[groupName action]? with
  | none => simp
  | some g => rfl

/-- The last value of a key in a group. -/
theorem get_last {filename content raw key value : Str} {e : DesktopEntry} {action : Option Str}
    {before after : List Str}
    (h : parse filename content = .ok e) (hlines : lines content = before ++ raw :: after)
    (hgroup : before.foldl groupAfter none = some (groupName action)) (hline : lineOf raw = .value key value)
    (hlast : ∀ e ∈ entriesFrom (some (groupName action)) after, ¬ (e.group = groupName action ∧ e.key = key)) :
    e.get key action = some value := by
  have hlater : lookup (entriesFrom (some (groupName action)) after) (groupName action) key = none := by
    rw [lookup, List.filter_eq_nil_iff.2 fun e he => by simpa using hlast e he]
    rfl
  rw [get_parse h, entries, hlines, entriesFrom_append, hgroup, entriesFrom, entryOf_value hline, groupAfter_value hline,
    lookup_append, lookup_append, hlater]
  simp [lookup]

end DesktopEntry

end Wsmr
