import Mathlib.Data.List.Basic

/-!
# First occurrences

A list that is filled with what it does not have yet holds the first occurrences of what came (`foldl_eq_eraseDups`).
-/

namespace Dedup

variable {α : Type} [BEq α] [LawfulBEq α]

theorem foldl_append_new : ∀ (v out : List α), v.foldl (fun out x => if out.contains x then out else out ++ [x]) out =
    out ++ (v.removeAll out).eraseDups
  | [], out => by simp
  | x :: v, out => by
    rw [List.foldl_cons, List.cons_removeAll]
    by_cases hx : out.contains x = true
    · rw [if_pos hx, foldl_append_new v out]
      simp only [List.contains_iff_mem] at hx
      simp [hx]
    · have hkept : (v.removeAll out).filter (fun b => !b == x) = v.removeAll (out ++ [x]) := by
        unfold List.removeAll
        rw [List.filter_filter]
        refine List.filter_congr fun b _ => ?_
        rw [Bool.eq_iff_iff]
        simp [and_comm]
      rw [if_neg hx, foldl_append_new v (out ++ [x]), ← hkept]
      simp only [List.contains_iff_mem] at hx
      simp [hx, List.eraseDups_cons]

theorem foldl_eq_eraseDups (v : List α) :
    v.foldl (fun out x => if out.contains x then out else out ++ [x]) [] = v.eraseDups := by
  rw [foldl_append_new, List.nil_append, List.removeAll_nil]

theorem eraseDups_append_singleton (v : List α) (x : α) :
    (v ++ [x]).eraseDups = if v.eraseDups.contains x then v.eraseDups else v.eraseDups ++ [x] := by
  rw [← foldl_eq_eraseDups, List.foldl_append, foldl_eq_eraseDups]
  rfl

theorem eraseDups_of_nodup : ∀ {v : List α}, v.Nodup → v.eraseDups = v
  | [], _ => rfl
  | a :: v, h => by
    obtain ⟨ha, hv⟩ := List.nodup_cons.1 h
    have hkept : (v.filter fun b => !b == a) = v := List.filter_eq_self.2 fun b hb => by
      have hne : b ≠ a := fun he => ha (he ▸ hb)
      simpa using hne
    rw [List.eraseDups_cons, hkept, eraseDups_of_nodup hv]

theorem eraseDups_eraseDups : ∀ {n : Nat} {v : List α}, v.length ≤ n →
    v.eraseDups.eraseDups = v.eraseDups
  | _, [], _ => rfl
  | n + 1, a :: v, h => by
    have hlen : (v.filter fun b => !b == a).length ≤ n :=
      Nat.le_trans (List.length_filter_le _ _) (Nat.le_of_succ_le_succ h)
    have hkept : ((v.filter fun b => !b == a).eraseDups.filter fun b => !b == a) =
        (v.filter fun b => !b == a).eraseDups := by
      refine List.filter_eq_self.2 fun b hb => ?_
      rw [List.mem_eraseDups] at hb
      exact (List.mem_filter.1 hb).2
    rw [List.eraseDups_cons, List.eraseDups_cons, hkept, eraseDups_eraseDups hlen]

/-- Nothing is added exactly when everything is there. -/
theorem eraseDups_append_eq_iff {v w : List α} :
    (v.eraseDups ++ w).eraseDups = v.eraseDups ↔ w ⊆ v := by
  have hnil : ∀ u : List α, u.eraseDups = [] ↔ u = [] := fun u => by
    cases u with
    | nil => simp
    | cons a u => simp [List.eraseDups_cons]
  rw [List.eraseDups_append, eraseDups_eraseDups (Nat.le_refl _), List.append_right_eq_self, hnil, List.removeAll,
    List.filter_eq_nil_iff]
  constructor
  · intro h x hx
    simpa using h x hx
  · intro h x hx
    simpa using h hx

theorem eraseDups_eq_singleton_iff {v : List α} {b : α} :
    v.eraseDups = [b] ↔ v ≠ [] ∧ v ⊆ [b] := by
  constructor
  · intro h
    refine ⟨?_, fun x hx => ?_⟩
    · rintro rfl
      cases h
    · rw [← h]
      exact List.mem_eraseDups.2 hx
  · rintro ⟨hne, hall⟩
    obtain ⟨a, u, rfl⟩ := List.exists_cons_of_ne_nil hne
    obtain rfl := List.mem_singleton.1 (hall List.mem_cons_self)
    have hnone : (u.filter fun b => !b == a) = [] := by
      refine List.filter_eq_nil_iff.2 fun x hx => ?_
      obtain rfl := List.mem_singleton.1 (hall (List.mem_cons_of_mem _ hx))
      simp
    rw [List.eraseDups_cons, hnone, List.eraseDups_nil]

end Dedup
