import Mathlib.Data.List.Nodup
import Mathlib.Logic.Function.Basic

/-!
# Changes to a store, and taking them back

A store gives a value, or none, to each key. A batch of changes is applied in order (`apply`). Whoever
notes for every change the value that was there before, newest first (`undo`), can apply those notes to
get back to where the batch started (`apply_undo`). When some of that fails, each key still has the value
it started with or the one the batch gave it (`within_undo`), as long as no key is changed twice.
-/

namespace UndoLog

/-- A new value for a key; `none` takes it away. -/
abbrev Change (κ υ : Type) := κ × Option υ

abbrev Store (κ υ : Type) := κ → Option υ

variable {κ υ : Type}

/-- Key by key, a store holds what `base` holds or what a change put there. -/
def Within (cs : List (Change κ υ)) (base d : Store κ υ) : Prop := ∀ k, d k = base k ∨ (k, d k) ∈ cs

theorem within_mono {cs cs' : List (Change κ υ)} {base d : Store κ υ} (h : cs ⊆ cs') (hd : Within cs base d) :
    Within cs' base d := fun k => (hd k).imp_right fun hk => h hk

theorem Within.of_not_mem {cs : List (Change κ υ)} {base d : Store κ υ} (h : Within cs base d) {k : κ}
    (hk : k ∉ cs.map Prod.fst) : d k = base k :=
  (h k).resolve_right fun hmem => hk (List.mem_map_of_mem (f := Prod.fst) hmem)

variable [DecidableEq κ]

def apply (cs : List (Change κ υ)) (d : Store κ υ) : Store κ υ :=
  cs.foldl (fun d c => Function.update d c.1 c.2) d

variable {d : Store κ υ} {k : κ} {v : Option υ}

@[simp] theorem apply_nil : apply [] d = d := rfl

theorem apply_cons {c : Change κ υ} {cs : List (Change κ υ)} :
    apply (c :: cs) d = apply cs (Function.update d c.1 c.2) := rfl

theorem apply_of_not_mem : ∀ {cs : List (Change κ υ)} {d : Store κ υ}, k ∉ cs.map Prod.fst → apply cs d k = d k
  | [], _, _ => rfl
  | c :: cs, d, h => by
    simp only [List.map_cons, List.mem_cons, not_or] at h
    rw [apply_cons, apply_of_not_mem h.2, Function.update_of_ne h.1]

theorem apply_of_mem : ∀ {cs : List (Change κ υ)} {d : Store κ υ}, (cs.map Prod.fst).Nodup → (k, v) ∈ cs →
    apply cs d k = v
  | c :: cs, d, hn, h => by
    simp only [List.map_cons, List.nodup_cons] at hn
    rw [apply_cons]
    rcases List.mem_cons.1 h with rfl | h
    · rw [apply_of_not_mem hn.1, Function.update_self]
    · exact apply_of_mem hn.2 h

theorem within_apply {cs : List (Change κ υ)} (h : (cs.map Prod.fst).Nodup) : Within cs d (apply cs d) := by
  intro k
  by_cases hk : k ∈ cs.map Prod.fst
  · obtain ⟨⟨k', v⟩, hc, rfl⟩ := List.mem_map.1 hk
    rw [apply_of_mem h hc]
    exact Or.inr hc
  · exact Or.inl (apply_of_not_mem hk)

/-! ## Taking changes back -/

/-- The values from before each change, newest first, in front of what was noted already. -/
def undo : List (Change κ υ) → Store κ υ → List (Change κ υ) → List (Change κ υ)
  | [], _, log => log
  | c :: cs, d, log => undo cs (Function.update d c.1 c.2) ((c.1, d c.1) :: log)

/-- **Undo**: back to where the batch started, and from there as the older notes say. -/
theorem apply_undo : ∀ {cs : List (Change κ υ)} {d : Store κ υ} {log : List (Change κ υ)},
    apply (undo cs d log) (apply cs d) = apply log d
  | [], _, _ => rfl
  | c :: cs, d, log => by
    rw [undo, apply_cons, apply_undo, apply_cons, Function.update_idem, Function.update_eq_self]

/-- What a batch that changes no key twice notes is what there was before it. -/
theorem undo_of_nodup : ∀ {cs : List (Change κ υ)} {d : Store κ υ} {log : List (Change κ υ)},
    (cs.map Prod.fst).Nodup → undo cs d log = (cs.map fun c => (c.1, d c.1)).reverse ++ log
  | [], _, _, _ => rfl
  | c :: cs, d, log, h => by
    simp only [List.map_cons, List.nodup_cons] at h
    have hrest : (cs.map fun c' => (c'.1, Function.update d c.1 c.2 c'.1)) = cs.map fun c' => (c'.1, d c'.1) := by
      refine List.map_congr_left fun c' hc' => ?_
      have hne : c'.1 ≠ c.1 := fun e => h.1 (e ▸ List.mem_map_of_mem hc')
      rw [Function.update_of_ne hne]
    rw [undo, undo_of_nodup h.2, hrest]
    simp

/-- **Undo in part**: only the keys that `p` selects are taken back. -/
theorem within_undo {cs : List (Change κ υ)} (h : (cs.map Prod.fst).Nodup) (p : κ → Bool) :
    Within cs d (apply ((undo cs d []).filter fun c => p c.1) (apply cs d)) := by
  rw [undo_of_nodup h, List.append_nil]
  intro k
  by_cases hk : k ∈ (((cs.map fun c => (c.1, d c.1)).reverse.filter fun c => p c.1).map Prod.fst)
  · obtain ⟨⟨k', v⟩, hc, rfl⟩ := List.mem_map.1 hk
    obtain ⟨c, -, he⟩ := List.mem_map.1 (List.mem_reverse.1 (List.mem_filter.1 hc).1)
    obtain ⟨rfl, rfl⟩ := Prod.mk.inj he
    refine Or.inl (apply_of_mem ?_ hc)
    refine List.Nodup.sublist (List.Sublist.map _ List.filter_sublist) ?_
    rw [List.map_reverse, List.nodup_reverse, List.map_map]
    exact h
  · rw [apply_of_not_mem hk]
    exact within_apply h k

end UndoLog
