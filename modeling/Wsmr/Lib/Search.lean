import Mathlib.Data.List.Basic

/-!
# Searches through one list

A search takes the first element of a list that is accepted. Another element may *override* an accepted one, if it
comes before it. `first_kept_iff` says when the search never takes an element that is overridden.
-/

namespace Search

variable {α : Type} {A : α → Prop} {R : α → α → Prop}

theorem exists_first : ∀ {l : List α}, (∃ x ∈ l, A x) → ∃ before a after, l = before ++ a :: after ∧ A a ∧
    ∀ x ∈ before, ¬ A x
  | [], h => by simp at h
  | y :: l, h => by
    by_cases hy : A y
    · exact ⟨[], y, l, rfl, hy, by simp⟩
    · have hrest : ∃ x ∈ l, A x := by
        obtain ⟨x, hx, hA⟩ := h
        rcases List.mem_cons.1 hx with rfl | hx
        · exact absurd hA hy
        · exact ⟨x, hx, hA⟩
      obtain ⟨before, a, after, rfl, ha, hbefore⟩ := exists_first hrest
      exact ⟨y :: before, a, after, rfl, ha, List.forall_mem_cons.2 ⟨hy, hbefore⟩⟩

theorem findSome?_congr {β : Type} {f g : α → Option β} : ∀ {l : List α}, (∀ x ∈ l, f x = g x) →
    l.findSome? f = l.findSome? g
  | [], _ => rfl
  | x :: l, h => by
    rw [List.forall_mem_cons] at h
    rw [List.findSome?_cons, List.findSome?_cons, h.1, findSome?_congr h.2]

/-- What is taken is not overridden exactly if whatever is accepted and overridden comes after something accepted
that is not. -/
theorem first_kept_iff (l : List α) :
    (∀ before a after, l = before ++ a :: after → A a → (∀ x ∈ before, ¬ A x) → ∀ x ∈ before, ¬ R x a) ↔
      ∀ before a after, l = before ++ a :: after → A a → (∃ x ∈ before, R x a) →
        ∃ before' a' after', before = before' ++ a' :: after' ∧ A a' ∧ ∀ x ∈ before', ¬ R x a' := by
  constructor
  · rintro h before a after rfl ha ⟨x, hx, hR⟩
    have haccepted : ∃ y ∈ before, A y := by
      by_contra hnone
      exact h before a after rfl ha (fun y hy hA => hnone ⟨y, hy, hA⟩) x hx hR
    obtain ⟨before', a', after', rfl, ha', hfirst⟩ := exists_first haccepted
    have hkept := h before' a' (after' ++ a :: after) (by simp) ha' hfirst
    exact ⟨before', a', after', rfl, ha', hkept⟩
  · intro h before a after hl ha hfirst x hx hR
    obtain ⟨before', a', after', rfl, ha', -⟩ := h before a after hl ha ⟨x, hx, hR⟩
    exact hfirst a' (by simp) ha'

end Search
