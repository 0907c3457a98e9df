import Wsmr.Lib.Pool

/-!
# Critical sections

Programs of a pool share a state and one lock. Each asks for the lock, works on the state and gives
the lock back (`critical`); a program that asks while another holds the lock waits, and the lock of
a program that is killed is free again. Inside its section a program is alone with the state, so what
has been proved of the section by itself (`Prog.moves`) holds of it in the pool: `critical_rule`.
-/

namespace Effects

namespace Prog

variable {S : Sig} {α β σ φ ε : Type}

section
variable (h : φ → (o : S.Op) → σ → S.Resp o × σ) (P : S.Op → Prop) (R : σ → σ → Prop)

/-- Every operation satisfies `P` and moves the state along `R`, and the result satisfies `Q`. -/
def moves (Q : α → σ → Prop) : Prog S α → σ → Prop
  | .ret a, s => Q a s
  | .op o k, s => P o ∧ ∀ f, R s (h f o s).2 ∧ (k (h f o s).1).moves Q (h f o s).2

variable {h P R}

theorem moves_mono {Q Q' : α → σ → Prop} (hQ : ∀ a s, Q a s → Q' a s) : ∀ {p : Prog S α} {s : σ},
    p.moves h P R Q s → p.moves h P R Q' s
  | .ret a, s, hp => hQ a s hp
  | .op _ _, _, hp => ⟨hp.1, fun f => ⟨(hp.2 f).1, moves_mono hQ (hp.2 f).2⟩⟩

theorem moves_bind {Q : β → σ → Prop} {f : α → Prog S β} : ∀ {p : Prog S α} {s : σ},
    p.moves h P R (fun a t => (f a).moves h P R Q t) s → (p.bind f).moves h P R Q s
  | .ret _, _, hp => hp
  | .op _ _, _, hp => ⟨hp.1, fun c => ⟨(hp.2 c).1, moves_bind (hp.2 c).2⟩⟩

theorem moves_ebind {x : Prog S (Except ε α)} {f : α → Prog S (Except ε β)} {Q : Except ε β → σ → Prop} {s : σ}
    (hx : x.moves h P R (fun r t => match r with
      | .ok a => (f a).moves h P R Q t
      | .error e => Q (.error e) t) s) :
    (x.bind (onOk f)).moves h P R Q s := by
  refine moves_bind (moves_mono (fun r t hr => ?_) hx)
  cases r <;> exact hr

end
end Prog

/-- What an operation means for the lock; a program gets the lock by an answer that grants it. -/
inductive LockUse (ρ : Type) where
  | acquire (granted : ρ → Bool)
  | release
  | plain

/-- The state, and who holds the lock. -/
structure Guarded (σ : Type) where
  state : σ
  owner : Option Nat

def Guarded.leave {σ : Type} (s : Guarded σ) (i : Nat) : Guarded σ :=
  ⟨s.state, if s.owner = some i then none else s.owner⟩

section
variable {S : Sig} {α σ φ : Type} (h : φ → (o : S.Op) → σ → S.Resp o × σ) (use : (o : S.Op) → LockUse (S.Resp o))

def mutex : Machine S (Guarded σ) φ Unit where
  step i f o s :=
    let r := h f o s.state
    match use o with
    | .acquire granted =>
      if granted r.1 then if s.owner = none then some (r.1, ⟨r.2, some i⟩) else none
      else some (r.1, ⟨r.2, s.owner⟩)
    | .release => some (r.1, Guarded.leave ⟨r.2, s.owner⟩ i)
    | .plain => some (r.1, ⟨r.2, s.owner⟩)
  kill i _ _ s := s.leave i

/-- `body` with the lock held; `refused` is the result when the lock is not granted. -/
def critical (acquire release : S.Op) (refused : S.Resp acquire → Option α) (body : Prog S α) : Prog S α :=
  .op acquire fun x => (refused x).elim (body.bind fun y => .op release fun _ => .ret y) .ret

/-- How far a program has got. -/
inductive Stage (P : S.Op → Prop) (R : σ → σ → Prop) (acquire release : S.Op)
    (refused : S.Resp acquire → Option α) (body : Prog S α) (Q : α → σ → Prop) (i : Nat) (p : Prog S α)
    (s : Guarded σ) : Prop where
  | before (hp : p = critical acquire release refused body)
  | inside (hs : s.owner = some i) (q : Prog S α) (hp : p = q.bind fun y => .op release fun _ => .ret y)
      (hq : q.moves h P R Q s.state)
  | after (y : α) (hp : p = .ret y) (hy : Q y s.state)

variable {h use} {P : S.Op → Prop} {R : σ → σ → Prop} {acquire release : S.Op}
  {refused : S.Resp acquire → Option α} {body : Prog S α} {Q : α → σ → Prop}

/-- What the move of another program means for a program. -/
theorem Stage.others {j : Nat} {q : Prog S α} {t u : Guarded σ}
    (hst : Stage h P R acquire release refused body Q j q t)
    (hstable : ∀ {y}, Q y t.state → Q y u.state) (hu : t.owner = some j → u = t) :
    Stage h P R acquire release refused body Q j q u := by
  cases hst with
  | before hp => exact .before hp
  | inside hs q' hp hq => exact hu hs ▸ .inside hs q' hp hq
  | after y hp hy => exact .after y hp (hstable hy)

theorem Guarded.leave_other {t : Guarded σ} {i j : Nat} (hij : j ≠ i) (ht : t.owner = some j) : t.leave i = t := by
  have hne : t.owner ≠ some i := fun h => hij (Option.some.inj (ht.symm.trans h))
  simp only [Guarded.leave, if_neg hne]

/-- A step of program `i`: it moves the state along `R`, gets on, and does not move what another one
holds the lock for. -/
theorem Stage.step (hrefl : ∀ s, R s s) (hacq : use acquire = .acquire fun x => (refused x).isNone)
    (hrel : use release = .release) (hstill : ∀ f s, (h f acquire s).2 = s ∧ (h f release s).2 = s)
    {i : Nat} {o : S.Op} {k : S.Resp o → Prog S α} {f : φ} {r : S.Resp o} {t u : Guarded σ}
    (hbody : body.moves h (fun o => use o = .plain) R Q t.state)
    (hrefused : ∀ {x y t}, refused x = some y → Q y t)
    (hst : Stage h (fun o => use o = .plain) R acquire release refused body Q i (.op o k) t)
    (hs : (mutex h use).step i f o t = some (r, u)) :
    R t.state u.state ∧ Stage h (fun o => use o = .plain) R acquire release refused body Q i (k r) u ∧
      ∀ j ≠ i, t.owner = some j → u = t := by
  cases hst with
  | after y hp _ => exact absurd hp nofun
  | before hp =>
    obtain ⟨rfl, hk⟩ := Prog.op.inj hp
    obtain rfl := eq_of_heq hk
    simp only [mutex, hacq] at hs
    cases hx : refused (h f o t.state).1 with
    | none =>
      rw [if_pos (by rw [hx]; rfl)] at hs
      split at hs
      · rename_i hfree
        obtain ⟨rfl, rfl⟩ := Prod.mk.inj (Option.some.inj hs)
        refine ⟨(hstill f _).1 ▸ hrefl _, ?_, fun j _ ht => absurd (hfree.symm.trans ht) nofun⟩
        refine .inside rfl body (by simp only [hx, Option.elim_none]) ?_
        rw [(hstill f _).1]
        exact hbody
      · exact absurd hs nofun
    | some y =>
      rw [if_neg (by rw [hx]; nofun)] at hs
      obtain ⟨rfl, rfl⟩ := Prod.mk.inj (Option.some.inj hs)
      refine ⟨(hstill f _).1 ▸ hrefl _, .after y (by simp only [hx, Option.elim_some]) (hrefused hx), fun j _ _ => ?_⟩
      rw [(hstill f _).1]
  | inside hown q hp hq =>
    have hothers : ∀ j ≠ i, t.owner = some j → u = t := fun j hj ht =>
      absurd (Option.some.inj (ht.symm.trans hown)) hj
    cases q with
    | ret y =>
      obtain ⟨rfl, hk⟩ := Prog.op.inj hp
      obtain rfl := eq_of_heq hk
      simp only [mutex, hrel] at hs
      obtain ⟨rfl, rfl⟩ := Prod.mk.inj (Option.some.inj hs)
      have hstate : (Guarded.leave ⟨(h f o t.state).2, t.owner⟩ i).state = t.state := (hstill f _).2
      refine ⟨?_, .after y rfl ?_, hothers⟩
      · rw [hstate]
        exact hrefl _
      · rw [hstate]
        exact hq
    | op o' k' =>
      obtain ⟨rfl, hk⟩ := Prog.op.inj hp
      obtain rfl := eq_of_heq hk
      simp only [mutex, hq.1] at hs
      obtain ⟨rfl, rfl⟩ := Prod.mk.inj (Option.some.inj hs)
      exact ⟨(hq.2 f).1, .inside hown _ rfl (hq.2 f).2, hothers⟩

/-- **Critical sections.** A section that by itself only moves the state along the preorder `R` and
ends with a result as `Q` says, which moves along `R` do not disturb, does so among any number of
others, whatever the order of their steps and whoever is killed. -/
theorem critical_rule (hrefl : ∀ s, R s s) (htrans : ∀ {s t u}, R s t → R t u → R s u)
    (hacq : use acquire = .acquire fun x => (refused x).isNone) (hrel : use release = .release)
    (hstill : ∀ f s, (h f acquire s).2 = s ∧ (h f release s).2 = s) {bodies : List (Prog S α)} {s : σ}
    {Q : Nat → α → σ → Prop} (hstable : ∀ {i y t u}, R t u → Q i y t → Q i y u)
    (hbody : ∀ (i : Nat) (p : Prog S α) (t : σ), bodies[i]? = some p → R s t →
      p.moves h (fun o => use o = .plain) R (Q i) t)
    (hrefused : ∀ {i x y t}, refused x = some y → Q i y t) (es : List (Event φ Unit)) :
    let c := (mutex h use).exec es ⟨⟨s, none⟩, (bodies.map (critical acquire release refused)).map some⟩
    R s c.shared.state ∧ ∀ i y, c.procs[i]? = some (some (.ret y)) → Q i y c.shared.state := by
  let L : Nat → Prog S α → Guarded σ → Prop := fun i p t => ∃ body, bodies[i]? = some body ∧
    Stage h (fun o => use o = .plain) R acquire release refused body (Q i) i p t
  have hstart : Machine.Local (fun t : Guarded σ => R s t.state) L
      ⟨⟨s, none⟩, (bodies.map (critical acquire release refused)).map some⟩ := by
    refine Machine.local_start (hrefl s) fun i p hp => ?_
    rw [List.getElem?_map, Option.map_eq_some_iff] at hp
    obtain ⟨body, hb, rfl⟩ := hp
    exact ⟨body, hb, .before rfl⟩
  have hrun := Machine.exec_induct (M := mutex h use) (P := Machine.Local (fun t : Guarded σ => R s t.state) L)
    (G := fun _ _ => True) (fun c e hc _ => ?_) es hstart (Machine.along_true es _)
  · refine ⟨hrun.1, fun i y hy => ?_⟩
    obtain ⟨body, _, hst⟩ := hrun.2 i _ hy
    cases hst with
    | before hp => exact absurd hp nofun
    | inside _ q hp _ => cases q <;> exact absurd hp nofun
    | after y' hp hy' => exact (Prog.ret.inj hp) ▸ hy'
  · refine Machine.step_local ?_ ?_ hc
    · intro i f o k r u _ hp hs
      obtain ⟨body, hb, hst⟩ := hc.2 i _ hp
      obtain ⟨hR, hst', hothers⟩ := hst.step hrefl hacq hrel hstill (hbody i body _ hb hc.1) hrefused hs
      refine ⟨htrans hc.1 hR, ⟨body, hb, hst'⟩, fun j q hj hq => ?_⟩
      obtain ⟨body', hb', hst''⟩ := hc.2 j q hq
      exact ⟨body', hb', hst''.others (hstable hR) (hothers j hj)⟩
    · intro i x o k _ hp
      refine ⟨hc.1, fun j q hj hq => ?_⟩
      obtain ⟨body', hb', hst⟩ := hc.2 j q hq
      exact ⟨body', hb', hst.others id fun ht => Guarded.leave_other hj ht⟩

end
end Effects
