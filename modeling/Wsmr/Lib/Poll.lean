import Mathlib.Order.Nat
import Mathlib.Order.Defs.LinearOrder

/-!
# Waiting by looking again and again

A loop looks, returns when that settles the matter, gives up when the time is over, and sleeps before it
looks again. It returns what the first look gives that settles the matter or comes too late
(`loop_eq_some`). As the clock does not stand still while it sleeps, there is such a look, and a bound on
how many looks it takes (`loop_isSome`), so that the loop can be taken for what it returns (`await`).
-/

namespace Poll

structure Wait (α ρ : Type) where
  /-- What is returned for a look that settles the matter. -/
  judge : α → Option ρ
  /-- What is returned when the time is over. -/
  giveUp : α → ρ
  timeout : Nat
  nap : Nat
  nap_pos : 0 < nap

/-- What each look sees, and how much time has passed by then: at least as much as was slept. -/
structure Looks (α : Type) (nap : Nat) where
  see : Nat → α × Nat
  slept : ∀ i, i * nap ≤ (see i).2

namespace Wait

variable {α ρ : Type} (w : Wait α ρ) (see : Nat → α × Nat)

/-- The loop from look `i` on; `n` bounds the number of looks. -/
def loop : Nat → Nat → Option ρ
  | 0, _ => none
  | n + 1, i => match w.judge (see i).1 with
    | some r => some r
    | none => if w.timeout ≤ (see i).2 then some (w.giveUp (see i).1) else loop n (i + 1)

/-- Look `i` settles the matter, or comes too late. -/
def Ends (i : Nat) : Prop := (w.judge (see i).1).isSome ∨ w.timeout ≤ (see i).2

instance : DecidablePred (w.Ends see) := fun _ => inferInstanceAs (Decidable (_ ∨ _))

/-- What is returned after a last look. -/
def result (x : α × Nat) : ρ := (w.judge x.1).getD (w.giveUp x.1)

/-- Look `k` is the last one. -/
structure Last (k : Nat) : Prop where
  ends : w.Ends see k
  first : ∀ j < k, ¬ w.Ends see j

variable {w see}

theorem loop_of_ends {n i : Nat} (h : w.Ends see i) : w.loop see (n + 1) i = some (w.result (see i)) := by
  unfold loop result
  cases hj : w.judge (see i).1 with
  | some r => rfl
  | none =>
    have hlate : w.timeout ≤ (see i).2 := by simpa [Ends, hj] using h
    rw [Option.getD_none]
    exact if_pos hlate

theorem loop_of_not_ends {n i : Nat} (h : ¬ w.Ends see i) : w.loop see (n + 1) i = w.loop see n (i + 1) := by
  rw [Ends, not_or] at h
  conv_lhs => unfold loop
  rw [Option.not_isSome_iff_eq_none.1 h.1]
  exact if_neg h.2

/-- **What the loop returns**: what its last look gives. -/
theorem loop_eq_some {n : Nat} {r : ρ} :
    w.loop see n 0 = some r ↔ ∃ k < n, w.Last see k ∧ r = w.result (see k) := by
  have hfrom : ∀ (n i : Nat), (∀ j < i, ¬ w.Ends see j) →
      (w.loop see n i = some r ↔ ∃ k < i + n, w.Last see k ∧ r = w.result (see k)) := by
    intro n
    induction n with
    | zero =>
      intro i hi
      refine iff_of_false (by simp [loop]) ?_
      rintro ⟨k, hk, hlast, -⟩
      exact hi k (by omega) hlast.ends
    | succ n ih =>
      intro i hi
      by_cases hends : w.Ends see i
      · rw [loop_of_ends hends, Option.some.injEq]
        constructor
        · intro hr
          exact ⟨i, by omega, ⟨hends, hi⟩, hr.symm⟩
        · rintro ⟨k, -, hlast, hr⟩
          obtain hlt | rfl | hgt := lt_trichotomy k i
          · exact absurd hlast.ends (hi k hlt)
          · exact hr.symm
          · exact absurd hends (hlast.first i hgt)
      · rw [loop_of_not_ends hends, ih (i + 1), Nat.add_right_comm, Nat.add_assoc]
        intro j hj
        obtain hlt | rfl := Nat.lt_succ_iff_lt_or_eq.1 hj
        · exact hi j hlt
        · exact hends
  simpa using hfrom n 0 (by simp)

/-- The looks that fit into the timeout, and one more. -/
def bound (w : Wait α ρ) : Nat := (w.timeout + w.nap - 1) / w.nap + 1

/-- **The loop ends**, after at most `bound` looks. -/
theorem loop_isSome (w : Wait α ρ) (l : Looks α w.nap) : (w.loop l.see w.bound 0).isSome := by
  have hlate : w.Ends l.see ((w.timeout + w.nap - 1) / w.nap) := by
    refine Or.inr (le_trans ?_ (l.slept _))
    have hpos := w.nap_pos
    have hdiv := Nat.lt_div_mul_add (a := w.timeout + w.nap - 1) hpos
    omega
  have hsome : ∃ i, w.Ends l.see i := ⟨_, hlate⟩
  have hlast : w.Last l.see (Nat.find hsome) := ⟨Nat.find_spec hsome, fun j hj => Nat.find_min hsome hj⟩
  have hlt : Nat.find hsome < w.bound := Nat.lt_succ_of_le (Nat.find_le hlate)
  exact Option.isSome_iff_exists.2 ⟨_, loop_eq_some.2 ⟨_, hlt, hlast, rfl⟩⟩

/-- What the loop returns. -/
def await (w : Wait α ρ) (l : Looks α w.nap) : ρ := (w.loop l.see w.bound 0).get (loop_isSome w l)

theorem await_spec (w : Wait α ρ) (l : Looks α w.nap) :
    ∃ k < w.bound, w.Last l.see k ∧ w.await l = w.result (l.see k) :=
  loop_eq_some.1 (Option.some_get _).symm

/-- There is but one last look. -/
theorem Last.unique {k k' : Nat} (h : w.Last see k) (h' : w.Last see k') : k = k' := by
  obtain hlt | heq | hgt := lt_trichotomy k k'
  · exact absurd h.ends (h'.first k hlt)
  · exact heq
  · exact absurd h'.ends (h.first k' hgt)

theorem await_eq {l : Looks α w.nap} {k : Nat} (h : w.Last l.see k) : w.await l = w.result (l.see k) := by
  obtain ⟨k', -, hlast, hresult⟩ := w.await_spec l
  rw [hresult, hlast.unique h]

theorem await_eq_iff {l : Looks α w.nap} {r : ρ} : w.await l = r ↔ ∃ k, w.Last l.see k ∧ w.result (l.see k) = r := by
  constructor
  · rintro rfl
    obtain ⟨k, -, hlast, hresult⟩ := w.await_spec l
    exact ⟨k, hlast, hresult.symm⟩
  · rintro ⟨k, hlast, rfl⟩
    exact await_eq hlast

/-- A look after which the loop goes on. -/
theorem not_ends {i : Nat} : ¬ w.Ends see i ↔ w.judge (see i).1 = none ∧ (see i).2 < w.timeout := by
  rw [Ends, not_or, not_le, Option.not_isSome_iff_eq_none]

end Wait
end Poll
