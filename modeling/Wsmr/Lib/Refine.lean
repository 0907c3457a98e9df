import Wsmr.Lib.Pool
import Mathlib.Data.Option.Basic

/-!
# A pool that does the work of another one

The programs of one pool carry out the operations of more abstract programs, each in any number of steps of
their own and with others in between. `Refines` says when this goes well: what a program has still to do fits
what its abstract program has still to do (`R`), every step keeps that up while the abstract program stands
still or takes one step, and no step breaks it for another program. Then every run of the first pool is a run
of the second one (`exec_refines`): the states agree (`I`), and so do the results and who was killed.
-/

namespace Effects

/-- `h` as a machine on which no program has to wait, and a kill leaves the state as it is. -/
def Machine.ofHandler {S : Sig} {σ φ : Type} (h : φ → (o : S.Op) → σ → S.Resp o × σ) : Machine S σ φ Unit where
  step _ f o s := some (h f o s)
  kill _ _ _ s := s

namespace Machine

variable {S T : Sig} {α σ τ φ ψ κ χ : Type}

theorem exec_append {M : Machine S σ φ κ} : ∀ (es es' : List (Event φ κ)) (c : Pool S α σ),
    M.exec (es ++ es') c = M.exec es' (M.exec es c)
  | [], _, _ => rfl
  | e :: es, es', c => exec_append es es' (M.event c e)

/-- The abstract program stands still, or takes one step. -/
inductive Follows (A : Machine T τ ψ χ) (i : Nat) : Prog T α → τ → Prog T α → τ → Prop where
  | stay {q : Prog T α} {t : τ} : Follows A i q t q t
  | step {o : T.Op} {k : T.Resp o → Prog T α} {r : T.Resp o} {t t' : τ} (f : ψ) (h : A.step i f o t = some (r, t')) :
    Follows A i (.op o k) t (k r) t'

/-- `I` relates the two states, `R i p q s` what program `i` has still to do to what its abstract program has. -/
structure Refines (M : Machine S σ φ κ) (A : Machine T τ ψ χ) (I : σ → τ → Prop)
    (R : Nat → Prog S α → Prog T α → σ → Prop) : Prop where
  run : ∀ {i f o k q s t r s'}, I s t → R i (.op o k) q s → M.step i f o s = some (r, s') →
    ∃ q' t', Follows A i q t q' t' ∧ I s' t' ∧ R i (k r) q' s'
  kill : ∀ {i x o k q s t}, I s t → R i (.op o k) q s →
    ∃ o' k' y, q = .op o' k' ∧ I (M.kill i x o s) (A.kill i y o' t)
  run_others : ∀ {i f o k q s t r s'}, I s t → R i (.op o k) q s → M.step i f o s = some (r, s') →
    ∀ {j p' q'}, j ≠ i → R j p' q' s → R j p' q' s'
  kill_others : ∀ {i x o k q s t}, I s t → R i (.op o k) q s →
    ∀ {j p' q'}, j ≠ i → R j p' q' s → R j p' q' (M.kill i x o s)

/-- The two pools fit, program by program. -/
def Fit (I : σ → τ → Prop) (R : Nat → Prog S α → Prog T α → σ → Prop) (c : Pool S α σ) (c' : Pool T α τ) : Prop :=
  I c.shared c'.shared ∧ ∀ i, Option.Rel (Option.Rel fun p q => R i p q c.shared) c.procs[i]? c'.procs[i]?

section
variable {M : Machine S σ φ κ} {A : Machine T τ ψ χ} {I : σ → τ → Prop} {R : Nat → Prog S α → Prog T α → σ → Prop}
  {c : Pool S α σ} {c' : Pool T α τ} {i : Nat}

theorem Fit.of_proc (h : Fit I R c c') {p : Prog S α} (hp : c.procs[i]? = some (some p)) :
    ∃ q, c'.procs[i]? = some (some q) ∧ R i p q c.shared := by
  have hi := h.2 i
  rw [hp] at hi
  revert hi
  generalize c'.procs[i]? = b
  rintro ⟨⟨hpq⟩⟩
  exact ⟨_, rfl, hpq⟩

/-- One program has moved or was killed, the others stay as they are. -/
theorem Fit.set (h : Fit I R c c') {s : σ} {t : τ} {x : Option (Prog S α)} {y : Option (Prog T α)} (hI : I s t)
    (hlt : i < c.procs.length) (hlt' : i < c'.procs.length) (hxy : Option.Rel (fun p q => R i p q s) x y)
    (hothers : ∀ {j p q}, j ≠ i → R j p q c.shared → R j p q s) :
    Fit I R ⟨s, c.procs.set i x⟩ ⟨t, c'.procs.set i y⟩ := by
  refine ⟨hI, fun j => ?_⟩
  by_cases hji : j = i
  · subst hji
    rw [List.getElem?_set_self hlt, List.getElem?_set_self hlt']
    exact .some hxy
  · rw [List.getElem?_set_ne (Ne.symm hji), List.getElem?_set_ne (Ne.symm hji)]
    have hj := h.2 j
    revert hj
    generalize c.procs[j]? = a
    generalize c'.procs[j]? = b
    rintro (⟨⟨hR⟩ | _⟩ | _)
    · exact .some (.some (hothers hji hR))
    · exact .some .none
    · exact .none

theorem Fit.event (hR : Refines M A I R) (h : Fit I R c c') (e : Event φ κ) :
    ∃ es', Fit I R (M.event c e) (A.exec es' c') := by
  by_cases hnext : c.next e.proc = none
  · rw [event_of_next_none hnext]
    exact ⟨[], h⟩
  obtain ⟨o, ho⟩ := Option.ne_none_iff_exists'.1 hnext
  obtain ⟨k, hp⟩ := Pool.next_eq_some.1 ho
  obtain ⟨q, hq, hpq⟩ := h.of_proc hp
  obtain ⟨hlt, -⟩ := List.getElem?_eq_some_iff.1 hp
  obtain ⟨hlt', hget⟩ := List.getElem?_eq_some_iff.1 hq
  cases e with
  | run i f =>
    simp only [Event.proc] at hp hq hpq hlt hlt' hget
    cases hs : M.step i f o c.shared with
    | none =>
      refine ⟨[], ?_⟩
      simp only [Machine.event, hp, hs]
      exact h
    | some rs =>
      obtain ⟨r, s'⟩ := rs
      rw [event_run hp hs]
      obtain ⟨q', t', hfollows, hI, hnew⟩ := hR.run h.1 hpq hs
      have hset := h.set hI hlt hlt' (Option.Rel.some hnew) fun hji hj => hR.run_others h.1 hpq hs hji hj
      cases hfollows with
      | stay =>
        refine ⟨[], ?_⟩
        rw [← hget, List.set_getElem_self] at hset
        exact hset
      | step f' hstep =>
        refine ⟨[.run i f'], ?_⟩
        rw [exec, exec, event_run hq hstep]
        exact hset
  | kill i x =>
    simp only [Event.proc] at hp hq hpq hlt hlt' hget
    rw [event_kill hp]
    obtain ⟨o', k', y, rfl, hI⟩ := hR.kill (x := x) h.1 hpq
    refine ⟨[.kill i y], ?_⟩
    rw [exec, exec, event_kill hq]
    exact h.set hI hlt hlt' .none fun hji hj => hR.kill_others h.1 hpq hji hj

/-- **Refinement**: every run of the first pool is a run of the second one. -/
theorem exec_refines (hR : Refines M A I R) (es : List (Event φ κ)) (h : Fit I R c c') :
    ∃ es', Fit I R (M.exec es c) (A.exec es' c') := by
  induction es generalizing c c' with
  | nil => exact ⟨[], h⟩
  | cons e es ih =>
    obtain ⟨es₁, h₁⟩ := h.event hR e
    obtain ⟨es₂, h₂⟩ := ih h₁
    exact ⟨es₁ ++ es₂, by rw [exec_append]; exact h₂⟩

end

/-- What holds of a program in whatever states it passes through holds of the pool of that program alone. -/
theorem exec_alone_of_wpc {h : φ → (o : S.Op) → σ → S.Resp o × σ} {C : σ → Prop} {Q : α → σ → Prop} {p : Prog S α}
    {s : σ} (hp : p.wpc h C Q s) (es : List (Event φ Unit)) : C ((ofHandler h).exec es ⟨s, [some p]⟩).shared := by
  have hinv : ∀ (es : List (Event φ Unit)) (c : Pool S α σ), C c.shared →
      (∀ i q, c.procs[i]? = some (some q) → i = 0 ∧ q.wpc h C Q c.shared) → C ((ofHandler h).exec es c).shared := by
    intro es
    induction es with
    | nil => exact fun c hc _ => hc
    | cons e es ih =>
      intro c hc hprocs
      rw [exec]
      by_cases hnext : c.next e.proc = none
      · rw [event_of_next_none hnext]
        exact ih c hc hprocs
      obtain ⟨o, ho⟩ := Option.ne_none_iff_exists'.1 hnext
      obtain ⟨k, hk⟩ := Pool.next_eq_some.1 ho
      obtain ⟨hzero, hwpc⟩ := hprocs _ _ hk
      cases e with
      | run i f =>
        simp only [Event.proc] at hk hzero
        subst hzero
        rw [event_run hk rfl]
        refine ih _ (Prog.wpc_now (hwpc.2 f)) fun j q hq => ?_
        by_cases hj : j = 0
        · subst hj
          rw [List.getElem?_set_self (List.getElem?_eq_some_iff.1 hk).1] at hq
          obtain rfl := Option.some.inj (Option.some.inj hq)
          exact ⟨rfl, hwpc.2 f⟩
        · rw [List.getElem?_set_ne (Ne.symm hj)] at hq
          exact absurd (hprocs j q hq).1 hj
      | kill i x =>
        simp only [Event.proc] at hk hzero
        subst hzero
        rw [event_kill hk]
        refine ih _ hc fun j q hq => ?_
        by_cases hj : j = 0
        · subst hj
          rw [List.getElem?_set_self (List.getElem?_eq_some_iff.1 hk).1] at hq
          cases Option.some.inj hq
        · rw [List.getElem?_set_ne (Ne.symm hj)] at hq
          exact absurd (hprocs j q hq).1 hj
  refine hinv es _ (Prog.wpc_now hp) fun i q hq => ?_
  cases i with
  | zero =>
    obtain rfl := Option.some.inj (Option.some.inj hq)
    exact ⟨rfl, hp⟩
  | succ i => simp at hq

end Machine
end Effects
