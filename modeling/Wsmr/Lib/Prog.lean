import Mathlib.Data.List.Basic

/-!
# Programs over an operation signature

A program asks its surroundings to carry out operations one at a time and goes on with each
answer. Nothing here knows what the operations are: a *handler* gives them a meaning on some
state, and one choice (of type `φ`) per operation decides what the surroundings do with it, for
example whether it fails.

* `run`  — the program alone, to its end, with a list of choices (the default choice when the
  list is used up).
* `stop` — the state in which the program leaves its surroundings when it is killed after `n`
  operations.
* `wpc C Q p s` — whatever the choices, every state `p` passes through from `s` satisfies `C`,
  and it ends with a result and a state satisfying `Q`. The rules `wpc_bind`, `wpc_ebind` and
  `wpc_mono` compose such facts; `run_of_wpc` and `stop_of_wpc` read them back on runs.
* `Tells` — the program returns an error exactly when an operation was answered badly (`run_of_tells`).
-/

namespace Effects

/-- The operations of a program and the type of the answer to each. -/
structure Sig where
  Op : Type
  Resp : Op → Type

inductive Prog (S : Sig) (α : Type) where
  | ret (a : α)
  | op (o : S.Op) (k : S.Resp o → Prog S α)

namespace Prog

variable {S : Sig} {α β γ σ φ ε : Type}

def bind : Prog S α → (α → Prog S β) → Prog S β
  | .ret a, f => f a
  | .op o k, f => .op o fun r => (k r).bind f

/-- The program that only performs `o`. -/
def call (o : S.Op) : Prog S (S.Resp o) := .op o .ret

instance : Monad (Prog S) where
  pure := .ret
  bind := bind

theorem bind_ret : ∀ p : Prog S α, p.bind .ret = p
  | .ret _ => rfl
  | .op o k => congrArg (Prog.op o) (funext fun r => bind_ret (k r))

theorem bind_assoc : ∀ (p : Prog S α) (f : α → Prog S β) (g : β → Prog S γ),
    (p.bind f).bind g = p.bind fun a => (f a).bind g
  | .ret _, _, _ => rfl
  | .op o k, f, g => congrArg (Prog.op o) (funext fun r => bind_assoc (k r) f g)

instance : LawfulMonad (Prog S) := LawfulMonad.mk' (Prog S) bind_ret (fun _ _ => rfl) bind_assoc

@[simp] theorem pure_eq (a : α) : (pure a : Prog S α) = .ret a := rfl
@[simp] theorem bind_eq (p : Prog S α) (f : α → Prog S β) : (p >>= f) = p.bind f := rfl

/-- Every operation the program may perform satisfies `P`, every result it may return `Q`. -/
def Uses (P : S.Op → Prop) (Q : α → Prop) : Prog S α → Prop
  | .ret a => Q a
  | .op o k => P o ∧ ∀ r, (k r).Uses P Q

theorem uses_bind {P : S.Op → Prop} {R : α → Prop} {Q : β → Prop} {f : α → Prog S β} :
    ∀ {p : Prog S α}, p.Uses P R → (∀ a, R a → (f a).Uses P Q) → (p.bind f).Uses P Q
  | .ret a, hp, hf => hf a hp
  | .op _ _, hp, hf => ⟨hp.1, fun r => uses_bind (hp.2 r) hf⟩

theorem uses_mono {P : S.Op → Prop} {Q Q' : α → Prop} (hQ : ∀ a, Q a → Q' a) :
    ∀ {p : Prog S α}, p.Uses P Q → p.Uses P Q'
  | .ret a, hp => hQ a hp
  | .op _ _, hp => ⟨hp.1, fun r => uses_mono hQ (hp.2 r)⟩

/-! ## Programs that return errors

`ExceptT ε (Prog S)` lets a program be written with `←` for "return on error". -/

/-- What the continuation of `←` does with an error. -/
def onOk (f : α → Prog S (Except ε β)) : Except ε α → Prog S (Except ε β)
  | .ok a => f a
  | .error e => .ret (.error e)

@[simp] theorem onOk_ok (f : α → Prog S (Except ε β)) (a : α) : onOk f (.ok a) = f a := rfl
@[simp] theorem onOk_error (f : α → Prog S (Except ε β)) (e : ε) :
    onOk f (.error e) = .ret (.error e) := rfl

theorem ebind_eq (x : ExceptT ε (Prog S) α) (f : α → ExceptT ε (Prog S) β) :
    (x >>= f) = Prog.bind (S := S) x (onOk f) := by
  show Prog.bind (S := S) x (ExceptT.bindCont f) = _
  congr 1
  funext r
  cases r <;> rfl

theorem uses_ebind {P : S.Op → Prop} {R : Except ε α → Prop} {Q : Except ε β → Prop} {x : ExceptT ε (Prog S) α}
    {f : α → ExceptT ε (Prog S) β} (hx : Uses (α := Except ε α) P R x)
    (hok : ∀ a, R (.ok a) → Uses (α := Except ε β) P Q (f a)) (herr : ∀ e, R (.error e) → Q (.error e)) :
    Uses (α := Except ε β) P Q (x >>= f : ExceptT ε (Prog S) β) := by
  rw [ebind_eq]
  exact uses_bind hx fun r hr => match r with
    | .ok a => hok a hr
    | .error e => herr e hr

/-! ## Running a program -/

section
variable [Inhabited φ] (h : φ → (o : S.Op) → σ → S.Resp o × σ)

/-- Run to the end; also returns the choices that were not used. -/
def run : Prog S α → List φ → σ → α × List φ × σ
  | .ret a, fs, s => (a, fs, s)
  | .op o k, fs, s => (k (h fs.headI o s).1).run fs.tail (h fs.headI o s).2

/-- The state left behind by a program that is killed after `n` operations. -/
def stop : Nat → Prog S α → List φ → σ → σ
  | 0, _, _, s => s
  | _ + 1, .ret _, _, s => s
  | n + 1, .op o k, fs, s => stop n (k (h fs.headI o s).1) fs.tail (h fs.headI o s).2

/-- Killed late enough, a program has run to its end. -/
theorem exists_stop_eq_run : ∀ (p : Prog S α) (fs : List φ) (s : σ), ∃ n, p.stop h n fs s = (p.run h fs s).2.2
  | .ret _, _, _ => ⟨0, rfl⟩
  | .op o k, fs, s => by
    obtain ⟨n, hn⟩ := exists_stop_eq_run (k (h fs.headI o s).1) fs.tail (h fs.headI o s).2
    exact ⟨n + 1, hn⟩

theorem run_bind : ∀ (p : Prog S α) (f : α → Prog S β) (fs : List φ) (s : σ),
    (p.bind f).run h fs s =
      (f (p.run h fs s).1).run h (p.run h fs s).2.1 (p.run h fs s).2.2
  | .ret _, _, _, _ => rfl
  | .op o k, f, fs, s => run_bind (k (h fs.headI o s).1) f fs.tail _

end

/-! ## Every run at once -/

section
variable (h : φ → (o : S.Op) → σ → S.Resp o × σ)

def wpc (C : σ → Prop) (Q : α → σ → Prop) : Prog S α → σ → Prop
  | .ret a, s => C s ∧ Q a s
  | .op o k, s => C s ∧ ∀ f, (k (h f o s).1).wpc C Q (h f o s).2

variable {h} {C C' : σ → Prop} {Q Q' : α → σ → Prop}

/-- The current state is among the states passed through. -/
theorem wpc_now : ∀ {p : Prog S α} {s : σ}, p.wpc h C Q s → C s
  | .ret _, _, hp => hp.1
  | .op _ _, _, hp => hp.1

theorem wpc_mono (hC : ∀ s, C s → C' s) (hQ : ∀ a s, C s → Q a s → Q' a s) :
    ∀ {p : Prog S α} {s : σ}, p.wpc h C Q s → p.wpc h C' Q' s
  | .ret a, s, hp => ⟨hC s hp.1, hQ a s hp.1 hp.2⟩
  | .op _ _, s, hp => ⟨hC s hp.1, fun f => wpc_mono hC hQ (hp.2 f)⟩

theorem wpc_bind {f : α → Prog S β} {Q : β → σ → Prop} : ∀ {p : Prog S α} {s : σ},
    p.wpc h C (fun a t => (f a).wpc h C Q t) s → (p.bind f).wpc h C Q s
  | .ret _, _, hp => hp.2
  | .op _ _, _, hp => ⟨hp.1, fun c => wpc_bind (hp.2 c)⟩

theorem wpc_ebind {x : Prog S (Except ε α)} {f : α → Prog S (Except ε β)}
    {Q : Except ε β → σ → Prop} {s : σ}
    (hx : x.wpc h C (fun r t => match r with
      | .ok a => (f a).wpc h C Q t
      | .error e => Q (.error e) t) s) :
    (x.bind (onOk f)).wpc h C Q s := by
  refine wpc_bind (wpc_mono (fun _ hc => hc) (fun r t hc hr => ?_) hx)
  cases r with
  | ok a => exact hr
  | error e => exact ⟨hc, hr⟩

/-- Sequencing after a program known by its specification. -/
theorem wpc_eseq {x : Prog S (Except ε α)} {f : α → Prog S (Except ε β)} {R : Except ε α → σ → Prop}
    {Q : Except ε β → σ → Prop} {s : σ} (hx : x.wpc h C' R s) (hC : ∀ t, C' t → C t)
    (hok : ∀ a t, C' t → R (.ok a) t → (f a).wpc h C Q t)
    (herr : ∀ e t, C' t → R (.error e) t → Q (.error e) t) : (x.bind (onOk f)).wpc h C Q s :=
  wpc_ebind (wpc_mono hC (fun r t hc hr => match r with
    | .ok a => hok a t hc hr
    | .error e => herr e t hc hr) hx)

/-- The choices may all be the same one. -/
theorem wpc_const {ψ : Type} (f : φ) : ∀ {p : Prog S α} {s : σ}, p.wpc h C Q s → p.wpc (fun _ : ψ => h f) C Q s
  | .ret _, _, hp => hp
  | .op _ _, _, hp => ⟨hp.1, fun _ => wpc_const f (hp.2 f)⟩

variable [Inhabited φ]

theorem run_of_wpc : ∀ {p : Prog S α} {s : σ} (fs : List φ), p.wpc h C Q s →
    C (p.run h fs s).2.2 ∧ Q (p.run h fs s).1 (p.run h fs s).2.2
  | .ret _, _, _, hp => hp
  | .op _ _, _, fs, hp => run_of_wpc fs.tail (hp.2 fs.headI)

theorem stop_of_wpc : ∀ (n : Nat) {p : Prog S α} {s : σ} (fs : List φ), p.wpc h C Q s →
    C (p.stop h n fs s)
  | 0, _, _, _, hp => wpc_now hp
  | _ + 1, .ret _, _, _, hp => hp.1
  | n + 1, .op _ _, _, fs, hp => stop_of_wpc n fs.tail (hp.2 fs.headI)

end

/-! ## Programs that tell of bad answers -/

section
variable [Inhabited φ] (h : φ → (o : S.Op) → σ → S.Resp o × σ) (bad : (o : S.Op) → S.Resp o → Prop)

/-- Some operation of the run is answered badly. -/
def Meets : Prog S α → List φ → σ → Prop
  | .ret _, _, _ => False
  | .op o k, fs, s => bad o (h fs.headI o s).1 ∨ (k (h fs.headI o s).1).Meets fs.tail (h fs.headI o s).2

/-- For the answers that are possible: `p` returns an error after a bad one, and only then. -/
def Tells (possible : (o : S.Op) → S.Resp o → Prop) : Prog S (Except ε α) → Prop
  | .ret r => ∃ a, r = .ok a
  | .op o k => ∀ r, possible o r →
      (bad o r → (k r).Uses (fun _ => True) fun r => ∃ e, r = .error e) ∧ (¬ bad o r → (k r).Tells possible)

variable {h bad} {possible : (o : S.Op) → S.Resp o → Prop}

theorem run_of_uses {P : S.Op → Prop} {R : α → Prop} : ∀ {p : Prog S α} (fs : List φ) (s : σ), p.Uses P R →
    R (p.run h fs s).1
  | .ret _, _, _, hp => hp
  | .op _ _, fs, _, hp => run_of_uses fs.tail _ (hp.2 _)

theorem run_of_tells (hh : ∀ f o s, possible o (h f o s).1) : ∀ {p : Prog S (Except ε α)} (fs : List φ) (s : σ),
    p.Tells bad possible →
      (p.Meets h bad fs s → ∃ e, (p.run h fs s).1 = .error e) ∧ (¬ p.Meets h bad fs s → ∃ a, (p.run h fs s).1 = .ok a)
  | .ret r, fs, s, hp => ⟨False.elim, fun _ => hp⟩
  | .op o k, fs, s, hp => by
    obtain ⟨hbad, hgood⟩ := hp _ (hh fs.headI o s)
    by_cases hb : bad o (h fs.headI o s).1
    · exact ⟨fun _ => run_of_uses fs.tail _ (hbad hb), fun hm => absurd (Or.inl hb) hm⟩
    · obtain ⟨herr, hok⟩ := run_of_tells hh fs.tail (h fs.headI o s).2 (hgood hb)
      exact ⟨fun hm => herr (hm.resolve_left hb), fun hm => hok fun hr => hm (Or.inr hr)⟩

theorem uses_error {f : α → Prog S (Except ε β)} : ∀ {x : Prog S (Except ε α)},
    x.Uses (fun _ => True) (fun r => ∃ e, r = .error e) →
      (x.bind (onOk f)).Uses (fun _ => True) fun r => ∃ e, r = .error e
  | .ret _, hx => by
    obtain ⟨e, rfl⟩ := hx
    exact ⟨e, rfl⟩
  | .op _ _, hx => ⟨trivial, fun r => uses_error (hx.2 r)⟩

theorem tells_ebind {f : α → Prog S (Except ε β)} (hf : ∀ a, (f a).Tells bad possible) :
    ∀ {x : Prog S (Except ε α)}, x.Tells bad possible → (x.bind (onOk f)).Tells bad possible
  | .ret _, hx => by
    obtain ⟨a, rfl⟩ := hx
    exact hf a
  | .op _ _, hx => fun r hr =>
    ⟨fun hb => uses_error ((hx r hr).1 hb), fun hb => tells_ebind hf ((hx r hr).2 hb)⟩

end

end Prog
end Effects
