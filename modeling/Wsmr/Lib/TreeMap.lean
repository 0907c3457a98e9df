import Mathlib.Data.List.Basic

/-!
# Facts about ordered maps

What `Std.ExtTreeMap` does not state about maps whose comparison decides equality: bulk erasing,
overriding a map by another one, and building a map back from (part of) its association list.
-/

namespace TreeMap

open Std

variable {κ υ : Type} {cmp : κ → κ → Ordering} [TransCmp cmp] [LawfulEqCmp cmp]

theorem getElem?_insert_ne {m : ExtTreeMap κ υ cmp} {k j : κ} {v : υ} (h : k ≠ j) :
    (m.insert k v)[j]? = m[j]? := by
  rw [ExtTreeMap.getElem?_insert, if_neg (by simpa using h)]

theorem getElem?_erase_ne {m : ExtTreeMap κ υ cmp} {k j : κ} (h : k ≠ j) :
    (m.erase k)[j]? = m[j]? := by
  rw [ExtTreeMap.getElem?_erase, if_neg (by simpa using h)]

theorem mem_of_mem_toList {m : ExtTreeMap κ υ cmp} {p : κ × υ} (h : p ∈ m.toList) : p.1 ∈ m := by
  rw [ExtTreeMap.mem_iff_isSome_getElem?, ExtTreeMap.mem_toList_iff_getElem?_eq_some.1 h]
  rfl

/-- Erase every key of a list. -/
def eraseAll (m : ExtTreeMap κ υ cmp) (ks : List κ) : ExtTreeMap κ υ cmp := ks.foldl (·.erase ·) m

theorem getElem?_eraseAll_of_mem : ∀ {ks : List κ} {m : ExtTreeMap κ υ cmp} {k : κ},
    k ∈ ks ∨ m[k]? = none → (eraseAll m ks)[k]? = none
  | [], _, _, h => h.elim (fun h => absurd h List.not_mem_nil) id
  | j :: ks, m, k, h => by
    show (eraseAll (m.erase j) ks)[k]? = none
    apply getElem?_eraseAll_of_mem
    by_cases hk : j = k
    · subst hk; exact Or.inr (by simp)
    · rw [getElem?_erase_ne hk]
      exact h.imp_left fun h => (List.mem_cons.1 h).resolve_left (Ne.symm hk)

theorem getElem?_eraseAll_of_not_mem : ∀ {ks : List κ} {m : ExtTreeMap κ υ cmp} {k : κ},
    k ∉ ks → (eraseAll m ks)[k]? = m[k]?
  | [], _, _, _ => rfl
  | j :: ks, m, k, h => by
    simp only [List.mem_cons, not_or] at h
    show (eraseAll (m.erase j) ks)[k]? = _
    rw [getElem?_eraseAll_of_not_mem h.2, getElem?_erase_ne (Ne.symm h.1)]

/-- What a map built from a list binds is one of the pairs. -/
theorem mem_of_getElem?_foldl_insert {k : κ} {v : υ} : ∀ {l : List (κ × υ)} {m : ExtTreeMap κ υ cmp},
    (l.foldl (fun m p => m.insert p.1 p.2) m)[k]? = some v → (k, v) ∈ l ∨ m[k]? = some v
  | [], _, h => Or.inr h
  | (j, u) :: l, m, h => by
    rcases mem_of_getElem?_foldl_insert (l := l) h with h | h
    · exact Or.inl (List.mem_cons_of_mem _ h)
    · by_cases hk : j = k
      · subst hk
        rw [ExtTreeMap.getElem?_insert_self] at h
        obtain rfl := Option.some.inj h
        exact Or.inl List.mem_cons_self
      · rw [getElem?_insert_ne hk] at h
        exact Or.inr h

/-- The last pair of a key wins. -/
theorem getElem?_foldl_insert [BEq κ] [LawfulBEq κ] {k : κ} : ∀ {l : List (κ × υ)} {m : ExtTreeMap κ υ cmp},
    (l.foldl (fun m p => m.insert p.1 p.2) m)[k]? = (l.reverse.lookup k).or m[k]?
  | [], m => rfl
  | (j, u) :: l, m => by
    rw [List.foldl_cons, getElem?_foldl_insert, List.reverse_cons, List.lookup_append, Option.or_assoc]
    congr 1
    by_cases hk : j = k
    · subst hk
      rw [ExtTreeMap.getElem?_insert_self, List.lookup_cons_self]
      rfl
    · rw [getElem?_insert_ne hk, List.lookup_cons, beq_false_of_ne (Ne.symm hk)]
      rfl

theorem lookup_filter [BEq κ] [LawfulBEq κ] {p : κ → Bool} {k : κ} : ∀ {l : List (κ × υ)},
    (l.filter fun x => p x.1).lookup k = if p k then l.lookup k else none
  | [] => by simp
  | (j, u) :: l => by
    have ih := lookup_filter (p := p) (k := k) (l := l)
    by_cases hj : j = k
    · subst hj
      cases hp : p j with
      | true => simp [hp]
      | false => simp [hp, ih]
    · have hskip : ∀ l : List (κ × υ), ((j, u) :: l).lookup k = l.lookup k := fun l => by
        rw [List.lookup_cons, beq_false_of_ne (Ne.symm hj)]
      rw [hskip, ← ih]
      cases hp : p j with
      | true => simp only [List.filter_cons, hp, if_true, hskip]
      | false => simp only [List.filter_cons, hp, Bool.false_eq_true, if_false]

/-- A key whose pairs all have one value is bound to it. -/
theorem getElem?_foldl_insert_of_forall {k : κ} {v : υ} : ∀ {l : List (κ × υ)} {m : ExtTreeMap κ υ cmp},
    (∀ p ∈ l, p.1 = k → p.2 = v) → (∃ p ∈ l, p.1 = k) ∨ m[k]? = some v →
    (l.foldl (fun m p => m.insert p.1 p.2) m)[k]? = some v
  | [], _, _, h => h.resolve_left (by simp)
  | (j, u) :: l, m, hv, h => by
    rw [List.forall_mem_cons] at hv
    refine getElem?_foldl_insert_of_forall (l := l) hv.2 ?_
    by_cases hj : j = k
    · subst hj
      obtain rfl : u = v := hv.1 rfl
      exact Or.inr ExtTreeMap.getElem?_insert_self
    · rw [getElem?_insert_ne hj]
      refine h.imp_left fun ⟨p, hp, he⟩ => ⟨p, (List.mem_cons.1 hp).resolve_left fun h => hj ?_, he⟩
      rw [← he, h]

theorem mem_of_getElem?_ofList {l : List (κ × υ)} {k : κ} {v : υ}
    (h : (ExtTreeMap.ofList l cmp)[k]? = some v) : (k, v) ∈ l := by
  rw [ExtTreeMap.ofList_eq_foldl] at h
  exact (mem_of_getElem?_foldl_insert h).resolve_right (by simp)

section
variable [BEq κ] [LawfulBEqCmp cmp] [LawfulBEq κ]

theorem contains_keys_false {l : List (κ × υ)} {k : κ} (h : ∀ p ∈ l, p.1 ≠ k) :
    (l.map Prod.fst).contains k = false := by
  simp only [List.contains_eq_mem, List.mem_map, decide_eq_false_iff_not, not_exists, not_and]
  exact fun p hp => h p hp

/-- A list with one pair per key is looked up by membership. -/
theorem getElem?_ofList_iff {l : List (κ × υ)} (hl : l.Pairwise fun a b => ¬ cmp a.1 b.1 = .eq)
    {k : κ} {v : υ} : (ExtTreeMap.ofList l cmp)[k]? = some v ↔ (k, v) ∈ l := by
  refine ⟨fun h => ?_, fun h => ExtTreeMap.getElem?_ofList_of_mem ReflCmp.compare_self hl h⟩
  by_cases hk : ∃ p ∈ l, p.1 = k
  · obtain ⟨⟨k', v'⟩, hp, rfl⟩ := hk
    rw [ExtTreeMap.getElem?_ofList_of_mem ReflCmp.compare_self hl hp] at h
    obtain rfl := Option.some.inj h
    exact hp
  · have : (ExtTreeMap.ofList l cmp)[k]? = none := ExtTreeMap.getElem?_ofList_of_contains_eq_false
      (contains_keys_false (l := l) (k := k) fun p hp e => hk ⟨p, hp, e⟩)
    rw [this] at h
    exact absurd h (by simp)

/-- Part of a map, rebuilt from its association list. -/
theorem getElem?_ofList_filter (m : ExtTreeMap κ υ cmp) (p : κ → Bool) (k : κ) :
    (ExtTreeMap.ofList (m.toList.filter fun x => p x.1) cmp)[k]? = if p k then m[k]? else none := by
  apply Option.ext
  intro v
  rw [getElem?_ofList_iff (ExtTreeMap.distinct_keys_toList.filter _), List.mem_filter,
    ExtTreeMap.mem_toList_iff_getElem?_eq_some]
  by_cases hp : p k <;> simp [hp]

/-- Overriding by the pairs of a map. -/
theorem getElem?_insertMany_toList (m n : ExtTreeMap κ υ cmp) (k : κ) :
    (m.insertMany n.toList)[k]? = n[k]?.or m[k]? := by
  cases hn : n[k]? with
  | some v =>
    have hm : (k, v) ∈ n.toList := ExtTreeMap.mem_toList_iff_getElem?_eq_some.2 hn
    rw [ExtTreeMap.getElem?_insertMany_list_of_mem ReflCmp.compare_self
      ExtTreeMap.distinct_keys_toList hm]
    rfl
  | none =>
    rw [ExtTreeMap.getElem?_insertMany_list_of_contains_eq_false (contains_keys_false ?_)]
    · rfl
    · rintro ⟨k', v⟩ hp rfl
      rw [ExtTreeMap.mem_toList_iff_getElem?_eq_some.1 hp] at hn
      exact absurd hn (by simp)

end

end TreeMap
