import Mathlib.Data.Set.Basic

/-!
# Ledgers: changing bindings that will be put back

Bindings (a partial function from names to values) are changed for a while and then put back.
Beforehand a *snapshot* of part of the bindings is taken; while they are live, names are *owed*:
they will be taken away unless the snapshot binds them. A ledger accounts for every difference
from the bindings it started with, outside a set of *exempt* names nobody answers for.

* `settle` — put the snapshot back, take away what is owed, leave the rest alone.
* `Ledger.settle_base` — settling an accounted-for ledger gives the bindings it started with.
* `settle_of_between` — settling again after a settling that stopped half way comes out the same.
-/

namespace Ledger

open Classical

variable {κ υ : Type}

/-- What settling makes of the live bindings. -/
noncomputable def settle (snapshot : κ → Option υ) (owed : Set κ) (live : κ → Option υ) : κ → Option υ :=
  fun k => (snapshot k).or (if k ∈ owed then none else live k)

section
variable {snapshot live mid : κ → Option υ} {owed : Set κ} {k : κ}

theorem settle_snapshot {v : υ} (h : snapshot k = some v) : settle snapshot owed live k = some v := by
  simp [settle, h]

theorem settle_owed (h : snapshot k = none) (hk : k ∈ owed) : settle snapshot owed live k = none := by
  simp [settle, h, hk]

theorem settle_else (h : snapshot k = none) (hk : k ∉ owed) :
    settle snapshot owed live k = live k := by
  simp [settle, h, hk]

/-- Without a snapshot settling only takes away. -/
theorem settle_lost (h : ∀ k, snapshot k = none) (k : κ) :
    settle snapshot owed live k = if k ∈ owed then none else live k := by
  simp [settle, h]

/-- Every name is as it was or as settling leaves it. -/
def Between (snapshot : κ → Option υ) (owed : Set κ) (live mid : κ → Option υ) : Prop :=
  ∀ k, mid k = live k ∨ mid k = settle snapshot owed live k

theorem between_refl : Between snapshot owed live live := fun _ => Or.inl rfl

/-- **Settling can be resumed.** -/
theorem settle_of_between (h : Between snapshot owed live mid) :
    settle snapshot owed mid = settle snapshot owed live := by
  funext k
  rcases hs : snapshot k with _ | v
  · by_cases hk : k ∈ owed
    · rw [settle_owed hs hk, settle_owed hs hk]
    · rw [settle_else hs hk, settle_else hs hk]
      exact (h k).elim id fun e => e.trans (settle_else hs hk)
  · rw [settle_snapshot hs, settle_snapshot hs]

/-- Settling a second time with fewer names owed changes nothing. -/
theorem settle_settle {owed' : Set κ} (h : owed' ⊆ owed) :
    settle snapshot owed' (settle snapshot owed live) = settle snapshot owed live := by
  funext k
  rcases hs : snapshot k with _ | v
  · by_cases hk : k ∈ owed'
    · rw [settle_owed hs hk, settle_owed hs (h hk)]
    · rw [settle_else hs hk]
  · rw [settle_snapshot hs, settle_snapshot hs]

end

end Ledger

/-- Live bindings whose differences from `base` are all accounted for. -/
structure Ledger (κ υ : Type) where
  base : κ → Option υ
  snapshot : κ → Option υ
  owed : Set κ
  exempt : Set κ
  live : κ → Option υ
  /-- The snapshot is part of what it started with. -/
  snapshot_base : ∀ k v, snapshot k = some v → base k = some v
  /-- Nothing of what it started with is owed without being in the snapshot. -/
  owed_base : ∀ k ∈ owed, snapshot k = none → base k = none
  accounted : ∀ k ∉ exempt, live k = base k ∨ snapshot k ≠ none ∨ k ∈ owed

namespace Ledger

variable {κ υ : Type} (L : Ledger κ υ)

/-- More names are owed. -/
def owe (ks : Set κ) (h : ∀ k ∈ ks, L.snapshot k = none → L.base k = none) : Ledger κ υ where
  __ := L
  owed := L.owed ∪ ks
  owed_base := fun k hk hs => hk.elim (fun hk => L.owed_base k hk hs) fun hk => h k hk hs
  accounted := fun k hk => (L.accounted k hk).imp_right (Or.imp_right Or.inl)

/-- The live bindings change, on names that are accounted for or back to what they were. -/
def change (live : κ → Option υ)
    (h : ∀ k ∉ L.exempt, live k = L.live k ∨ live k = L.base k ∨ L.snapshot k ≠ none ∨ k ∈ L.owed) :
    Ledger κ υ where
  __ := L
  live := live
  accounted := fun k hk => (h k hk).elim (fun e => e ▸ L.accounted k hk) id

/-- A ledger just opened: nothing has changed. -/
def opened (base snapshot : κ → Option υ) (owed exempt : Set κ)
    (h : ∀ k v, snapshot k = some v → base k = some v)
    (ho : ∀ k ∈ owed, snapshot k = none → base k = none) : Ledger κ υ where
  base := base
  snapshot := snapshot
  owed := owed
  exempt := exempt
  live := base
  snapshot_base := h
  owed_base := ho
  accounted := fun _ _ => Or.inl rfl

/-- **Settling restores the base** outside the exempt names, wherever there is a snapshot, and
wherever nothing has changed. -/
theorem settle_base {k : κ} (h : k ∉ L.exempt ∨ L.snapshot k ≠ none ∨ L.live k = L.base k) :
    settle L.snapshot L.owed L.live k = L.base k := by
  rcases hs : L.snapshot k with _ | v
  · by_cases ho : k ∈ L.owed
    · rw [settle_owed hs ho, L.owed_base k ho hs]
    · rw [settle_else hs ho]
      rcases h with hk | hk | hk
      · exact (L.accounted k hk).resolve_right (by simp [hs, ho])
      · exact absurd hs hk
      · exact hk
  · rw [settle_snapshot hs, L.snapshot_base k v hs]

end Ledger
