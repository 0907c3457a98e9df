import Mathlib.Data.List.Basic

/-!
# Programs with a state and errors

`ExceptT ε (StateM σ)`: an error ends the program and leaves the state as it is. `Does log kept p es Q` says that a
program notes `es`, one after the other, and ends early only with an error; such programs are put together by
`does_bind`.
-/

namespace Stateful

abbrev Io (ε σ α : Type) := ExceptT ε (StateM σ) α

variable {ε σ α β η : Type} {s : σ}

theorem run_bind (p : Io ε σ α) (f : α → Io ε σ β) : (p >>= f) s =
    match p s with
    | (.ok a, t) => f a t
    | (.error e, t) => (.error e, t) := by
  show (ExceptT.bindCont f (p s).1 : StateM σ _) (p s).2 = _
  obtain ⟨r, t⟩ := p s
  cases r <;> rfl

theorem run_lift (r : Except ε α) : (liftM r : Io ε σ α) s = (r, s) := by cases r <;> rfl

theorem run_pure (a : α) : (pure a : Io ε σ α) s = (.ok a, s) := rfl

/-- What is done once for each of several things, and never fails, is done in order. -/
theorem run_forM {step : α → Io ε σ PUnit} (next : σ → List α → σ) (hnil : ∀ s, next s [] = s)
    (hcons : ∀ s x xs, step x s = (.ok ⟨⟩, next s [x]) ∧ next (next s [x]) xs = next s (x :: xs)) (xs : List α) :
    forM xs step s = (.ok ⟨⟩, next s xs) := by
  induction xs generalizing s with
  | nil =>
    rw [hnil]
    rfl
  | cons x xs ih =>
    rw [List.forM_cons, run_bind, (hcons s x xs).1]
    dsimp only
    rw [ih, (hcons s x xs).2]

/-! ## What a program notes -/

variable {γ : Type} {log : σ → List η} {kept : σ → γ} {p : Io ε σ α} {f : α → Io ε σ β} {es fs : List η}
  {Q : α → Prop} {R : β → Prop}

/-- The program notes `es` and returns what satisfies `Q`, or ends with an error after part of it; either way
it leaves part of the state alone. -/
def Does (log : σ → List η) (kept : σ → γ) (p : Io ε σ α) (es : List η) (Q : α → Prop) : Prop :=
  ∀ s, ∃ done, done <+: es ∧ log (p s).2 = log s ++ done ∧ kept (p s).2 = kept s ∧
    ∀ a, (p s).1 = .ok a → done = es ∧ Q a

theorem does_nothing (hlog : ∀ s, log (p s).2 = log s) (hkept : ∀ s, kept (p s).2 = kept s)
    (hQ : ∀ s a, (p s).1 = .ok a → Q a) : Does log kept p [] Q := fun s =>
  ⟨[], List.prefix_rfl, by rw [hlog, List.append_nil], hkept s, fun a ha => ⟨rfl, hQ s a ha⟩⟩

theorem does_pure {a : α} (h : Q a) : Does log kept (pure a : Io ε σ α) [] Q :=
  does_nothing (fun _ => rfl) (fun _ => rfl) fun _ b hb => by
    obtain rfl := Except.ok.inj hb
    exact h

theorem does_bind (hp : Does log kept p es Q) (hf : ∀ a, Q a → Does log kept (f a) fs R) :
    Does log kept (p >>= f) (es ++ fs) R := by
  intro s
  obtain ⟨done, hdone, hlog, hkept, hok⟩ := hp s
  rw [run_bind]
  generalize p s = r at hlog hkept hok
  obtain ⟨result, t⟩ := r
  cases result with
  | error e => exact ⟨done, hdone.trans (List.prefix_append ..), hlog, hkept, fun a ha => by cases ha⟩
  | ok a =>
    obtain ⟨rfl, ha⟩ := hok a rfl
    obtain ⟨next, hnext, hlog', hkept', hok'⟩ := hf a ha t
    refine ⟨done ++ next, (List.prefix_append_right_inj done).2 hnext, ?_, hkept'.trans hkept, fun b hb => ?_⟩
    · show log (f a t).2 = _
      rw [hlog', hlog, List.append_assoc]
    · obtain ⟨rfl, hb⟩ := hok' b hb
      exact ⟨rfl, hb⟩

end Stateful
