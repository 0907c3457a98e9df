import Wsmr.Env.Files
import Wsmr.Varnames

/-!
# The environment delta (`src/env/delta.rs`)
-/

namespace Wsmr

open Text Std

/-- `BTreeSet<String>` -/
abbrev Names := ExtTreeSet Str

structure EnvChanges where
  set : Env
  unset : Names
  cleanup : Names

/-- `always_export` names present in `envPost` are set even if unchanged. -/
def forceExport (envPost : Env) (set : Env) (var : Str) : Env :=
  if neverExport.contains var || alwaysUnset.contains var then set
  else match envPost[var]? with
    | some v => set.insert var v
    | none => set

def computeChanges (envPre envPost : Env) : EnvChanges :=
  let changed := envPost.filter fun k v => envPre[k]? != some v
  let forced := alwaysExport.foldl (forceExport envPost) changed
  let set := TreeMap.eraseAll forced (neverExport ++ alwaysUnset)
  let gone := ExtTreeSet.ofList (envPre.keys.filter fun k => !envPost.contains k)
  { set := set
    unset := (alwaysUnset.filter envPre.contains).foldl (·.insert ·) gone
    cleanup := ExtTreeSet.ofList (set.keys.filter fun k => !neverCleanup.contains k) }

theorem getElem?_forceExport {envPost set : Env} {var k : Str} :
    (forceExport envPost set var)[k]? =
      if k = var ∧ var ∉ neverExport ∧ var ∉ alwaysUnset ∧ envPost.contains var then envPost[k]? else set[k]? := by
  unfold forceExport
  by_cases h1 : var ∈ neverExport
  · simp [h1]
  by_cases h2 : var ∈ alwaysUnset
  · simp [h2]
  cases hv : envPost[var]? with
  | none => 
    have : envPost.contains var = false := by
      rw [ExtTreeMap.contains_eq_isSome_getElem?, hv]; rfl
    simp [h1, h2, this]
  | some v =>
    have : envPost.contains var = true := by
      rw [ExtTreeMap.contains_eq_isSome_getElem?, hv]; rfl
    by_cases hk : k = var
    · subst hk; simp [h1, h2, this, hv]
    · simp [h1, h2, hk, TreeMap.getElem?_insert_ne (Ne.symm hk)]

theorem getElem?_foldl_forceExport {envPost : Env} {k : Str} : ∀ {vars : List Str} {set : Env},
    (vars.foldl (forceExport envPost) set)[k]? =
      if k ∈ vars ∧ k ∉ neverExport ∧ k ∉ alwaysUnset ∧ envPost.contains k then envPost[k]? else set[k]?
  | [], _ => by simp
  | var :: vars, set => by
    rw [List.foldl_cons, getElem?_foldl_forceExport, getElem?_forceExport]
    by_cases hk : k = var
    · subst hk
      by_cases h : k ∉ neverExport ∧ k ∉ alwaysUnset ∧ envPost.contains k = true
      · simp [h]
      · rw [if_neg fun c => h c.2, if_neg fun c => h c.2, if_neg fun c => h c.2]
    · simp [hk]

/-- What `set` binds: names the policy lets through that changed or are always exported. -/
theorem getElem?_set (envPre envPost : Env) (k : Str) :
    (computeChanges envPre envPost).set[k]? =
      if k ∈ neverExport ∨ k ∈ alwaysUnset then none
      else if k ∈ alwaysExport ∨ envPre[k]? ≠ envPost[k]? then envPost[k]? else none := by
  simp only [computeChanges]
  by_cases h : k ∈ neverExport ∨ k ∈ alwaysUnset
  · rw [if_pos h, TreeMap.getElem?_eraseAll_of_mem (Or.inl (List.mem_append.2 h))]
  · rw [if_neg h, TreeMap.getElem?_eraseAll_of_not_mem (by simpa using h), getElem?_foldl_forceExport,
      ExtTreeMap.getElem?_filter']
    rw [not_or] at h
    cases hp : envPost[k]? with
    | none => simp
    | some v =>
      have hc : envPost.contains k = true := by
        rw [ExtTreeMap.contains_eq_isSome_getElem?, hp]; rfl
      by_cases ha : k ∈ alwaysExport
      · simp [h, ha, hc]
      · by_cases he : envPre[k]? = some v <;> simp [ha, he, Option.filter]

theorem getElem?_of_set {envPre envPost : Env} {k v : Str}
    (h : (computeChanges envPre envPost).set[k]? = some v) : envPost[k]? = some v := by
  rw [getElem?_set] at h
  split at h
  · cases h
  · split at h
    · exact h
    · cases h

theorem mem_cleanup (envPre envPost : Env) (k : Str) :
    k ∈ (computeChanges envPre envPost).cleanup ↔
      k ∈ (computeChanges envPre envPost).set ∧ k ∉ neverCleanup := by
  simp [computeChanges, ExtTreeSet.mem_ofList, List.contains_eq_mem]

theorem mem_foldl_insert {k : Str} : ∀ {ks : List Str} {s : Names},
    k ∈ ks.foldl (·.insert ·) s ↔ k ∈ ks ∨ k ∈ s
  | [], s => by simp
  | j :: ks, s => by
    rw [List.foldl_cons, mem_foldl_insert, ExtTreeSet.mem_insert]
    simp only [List.mem_cons, LawfulEqCmp.compare_eq_iff_eq]
    tauto

theorem mem_unset (envPre envPost : Env) (k : Str) :
    k ∈ (computeChanges envPre envPost).unset ↔ k ∈ envPre ∧ (k ∉ envPost ∨ k ∈ alwaysUnset) := by
  show k ∈ (List.filter envPre.contains alwaysUnset).foldl (·.insert ·) (ExtTreeSet.ofList _) ↔ _
  rw [mem_foldl_insert, ExtTreeSet.mem_ofList, List.contains_eq_mem, decide_eq_true_eq, List.mem_filter,
    List.mem_filter]
  simp only [ExtTreeMap.mem_keys, ← ExtTreeMap.contains_iff_mem]
  cases envPre.contains k <;> cases envPost.contains k <;> simp

/-! ## What the changes amount to -/

/-- The environment with the changes made: first what is set, then what is unset. -/
def EnvChanges.apply (c : EnvChanges) (env : Env) : Env := TreeMap.eraseAll (env ∪ c.set) c.unset.toList

theorem getElem?_apply (c : EnvChanges) (env : Env) (k : Str) :
    (c.apply env)[k]? = if k ∈ c.unset then none else c.set[k]?.or env[k]? := by
  unfold EnvChanges.apply
  have hmem : k ∈ c.unset.toList ↔ k ∈ c.unset := ExtTreeSet.mem_toList
  split
  · rename_i h
    exact TreeMap.getElem?_eraseAll_of_mem (Or.inl (hmem.2 h))
  · rename_i h
    rw [TreeMap.getElem?_eraseAll_of_not_mem (mt hmem.1 h), ExtTreeMap.getElem?_union]

theorem alwaysExport_exported : ∀ k ∈ alwaysExport, k ∉ neverExport ∧ k ∉ alwaysUnset := by
  unfold alwaysExport neverExport alwaysUnset unionSession neverExportBase alwaysUnsetBase sessionSpecific
  repeat rw [String.toList_ofList]
  decide

theorem mem_set_iff (envPre envPost : Env) (k : Str) : k ∈ (computeChanges envPre envPost).set ↔
    k ∉ neverExport ∧ k ∉ alwaysUnset ∧ k ∈ envPost ∧ (k ∈ alwaysExport ∨ envPre[k]? ≠ envPost[k]?) := by
  rw [ExtTreeMap.mem_iff_isSome_getElem?, ExtTreeMap.mem_iff_isSome_getElem?, getElem?_set]
  by_cases h : k ∈ neverExport ∨ k ∈ alwaysUnset
  · rw [if_pos h]
    tauto
  · rw [if_neg h]
    rw [not_or] at h
    split
    · rename_i hc
      exact ⟨fun hpost => ⟨h.1, h.2, hpost, hc⟩, fun hset => hset.2.2.1⟩
    · rename_i hc
      exact ⟨fun hno => absurd hno Bool.false_ne_true, fun hset => absurd hset.2.2.2 hc⟩

/-- What is set of a name that is neither exported nor unset by policy: what the loader has, unless it is what was
there before. -/
theorem set_or_pre {envPre envPost : Env} {k : Str} (hpost : k ∈ envPost) (hnever : k ∉ neverExport)
    (hunset : k ∉ alwaysUnset) : ((computeChanges envPre envPost).set[k]?).or envPre[k]? = envPost[k]? := by
  obtain ⟨w, hw⟩ := Option.isSome_iff_exists.1 (ExtTreeMap.mem_iff_isSome_getElem?.1 hpost)
  rw [getElem?_set, if_neg (not_or.2 ⟨hnever, hunset⟩)]
  split
  · simp [hw]
  · rename_i h
    have hsame : envPre[k]? = envPost[k]? := by tauto
    simp [hsame]

/-- The changed environment, name by name. -/
theorem getElem?_changed (envPre envPost : Env) (k : Str) : ((computeChanges envPre envPost).apply envPre)[k]? =
    if k ∈ alwaysUnset then none
    else if k ∈ neverExport then (if k ∈ envPost then envPre[k]? else none)
    else envPost[k]? := by
  have hnone : ∀ {m : Env} {k : Str}, k ∉ m → m[k]? = none := ExtTreeMap.getElem?_eq_none
  rw [getElem?_apply]
  by_cases hgone : k ∈ alwaysUnset ∨ k ∉ envPost
  · -- The name is unset, or was not there and is not set.
    have hset : (computeChanges envPre envPost).set[k]? = none := hnone fun hset => by
      obtain ⟨-, hunset, hpost, -⟩ := (mem_set_iff envPre envPost k).1 hset
      exact hgone.elim hunset fun h => h hpost
    have hend : (if k ∈ (computeChanges envPre envPost).unset then none
        else (computeChanges envPre envPost).set[k]?.or envPre[k]?) = none := by
      split
      · rfl
      · rename_i hkept
        rw [hset, Option.none_or]
        exact hnone fun hpre => hkept ((mem_unset envPre envPost k).2 ⟨hpre, hgone.symm⟩)
    rw [hend]
    rcases hgone with hunset | hpost
    · rw [if_pos hunset]
    · rw [if_neg hpost, hnone hpost, ite_self, ite_self]
  · rw [not_or, not_not] at hgone
    obtain ⟨hunset, hpost⟩ := hgone
    have hkept : k ∉ (computeChanges envPre envPost).unset := fun h =>
      ((mem_unset envPre envPost k).1 h).2.elim (fun h => h hpost) hunset
    rw [if_neg hkept, if_neg hunset, if_pos hpost]
    by_cases hnever : k ∈ neverExport
    · rw [if_pos hnever, getElem?_set, if_pos (Or.inl hnever), Option.none_or]
    · rw [if_neg hnever, set_or_pre hpost hnever hunset]

/-- What is bound anew is set. -/
theorem mem_set_of_changed {envPre envPost : Env} {k v : Str}
    (hv : ((computeChanges envPre envPost).apply envPre)[k]? = some v) (hne : envPre[k]? ≠ some v) :
    k ∈ (computeChanges envPre envPost).set := by
  rw [getElem?_apply] at hv
  split at hv
  · cases hv
  · rcases Option.or_eq_some_iff.1 hv with h | ⟨-, h⟩
    · exact ExtTreeMap.mem_iff_isSome_getElem?.2 (by rw [h]; rfl)
    · exact absurd h hne

/-- **The meaning of the delta**: the changed environment is the loader's, except for the names that policy
keeps out of it; what it binds anew is recorded for cleanup. -/
theorem computeChanges_meaning (envPre envPost : Env) :
    (∀ k, ¬ (k ∈ (computeChanges envPre envPost).set ∧ k ∈ (computeChanges envPre envPost).unset)) ∧
    (∀ k : Str, ((computeChanges envPre envPost).apply envPre)[k]? =
      if k ∈ alwaysUnset then none
      else if k ∈ neverExport then (if k ∈ envPost then envPre[k]? else none)
      else envPost[k]?) ∧
    (∀ k ∈ alwaysExport, k ∈ envPost → k ∈ (computeChanges envPre envPost).set) ∧
    (∀ k, k ∈ (computeChanges envPre envPost).cleanup ↔
      k ∈ (computeChanges envPre envPost).set ∧ k ∉ neverCleanup) ∧
    ∀ k v : Str, ((computeChanges envPre envPost).apply envPre)[k]? = some v → envPre[k]? ≠ some v →
      k ∈ (computeChanges envPre envPost).cleanup ∨ k ∈ neverCleanup := by
  refine ⟨fun k => ?_, getElem?_changed envPre envPost, fun k hk hpost => ?_, mem_cleanup envPre envPost,
    fun k v hv hne => ?_⟩
  · rw [mem_set_iff, mem_unset]
    tauto
  · obtain ⟨hnever, hunset⟩ := alwaysExport_exported k hk
    exact (mem_set_iff envPre envPost k).2 ⟨hnever, hunset, hpost, Or.inl hk⟩
  · rw [mem_cleanup]
    by_cases hnc : k ∈ neverCleanup
    · exact Or.inr hnc
    · exact Or.inl ⟨mem_set_of_changed hv hne, hnc⟩

end Wsmr
