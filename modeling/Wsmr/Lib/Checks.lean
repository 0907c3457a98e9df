import Wsmr.Lib.Prog

/-!
# Chains of checks

A check is given a report. It asks its surroundings and goes on with the report, goes on with a bad one, or ends the
chain with a bad one.

* `eval` — the result of a program when every operation is always answered alike.
* `Decides a Good P c` — with the answers `a`, the check `c` is passed exactly if `P`. Such checks compose by
  `decides_seq`, whether the first goes on or not.
* `Guarded` — operations that need a permission are performed after an answer that grants it. What it says about
  runs is read back with `wpc_of_guarded`, and on the calls of a run with `grantedFirst_calls`.
* `Whole` — what the calls of a run to the end may be. It is taken apart with `whole_bind` and `whole_ebind`, and
  holds of every run by `whole_calls`.
-/

namespace Effects
namespace Prog

variable {S : Sig} {α β ε ρ σ φ : Type}

/-! ## Fixed answers -/

section
variable (a : (o : S.Op) → S.Resp o)

def eval : Prog S α → α
  | .ret x => x
  | .op o k => (k (a o)).eval

@[simp] theorem eval_ret (x : α) : (Prog.ret x : Prog S α).eval a = x := rfl
@[simp] theorem eval_op (o : S.Op) (k : S.Resp o → Prog S α) : (Prog.op o k).eval a = (k (a o)).eval a := rfl

@[simp] theorem eval_bind (f : α → Prog S β) : ∀ p : Prog S α, (p.bind f).eval a = (f (p.eval a)).eval a
  | .ret _ => rfl
  | .op o k => eval_bind f (k (a o))

end

theorem eval_ebind {a : (o : S.Op) → S.Resp o} (x : ExceptT ε (Prog S) α) (f : α → ExceptT ε (Prog S) β) :
    eval a (x >>= f : ExceptT ε (Prog S) β) = eval a (onOk f (eval a x)) := by
  rw [ebind_eq, eval_bind]

/-! ## Checks -/

/-- The report of a chain, whether it has come to its end or not. -/
def settled : Except ρ ρ → ρ
  | .ok v => v
  | .error v => v

/-- The check `c`, made under a condition. -/
def onlyIf (B : Prop) [Decidable B] (c : ρ → ExceptT ρ (Prog S) ρ) (v : ρ) : ExceptT ρ (Prog S) ρ :=
  if B then c v else pure v

section
variable (a : (o : S.Op) → S.Resp o) (Good : ρ → Prop)

def Decides (P : Prop) (c : ρ → ExceptT ρ (Prog S) ρ) : Prop :=
  ∀ v, (P → (c v : Prog S (Except ρ ρ)).eval a = .ok v) ∧ (¬ P → ¬ Good (settled ((c v : Prog S (Except ρ ρ)).eval a)))

variable {a Good} {P Q : Prop} {c d : ρ → ExceptT ρ (Prog S) ρ}

theorem decides_pass (hP : P) : Decides a Good P (pure : ρ → ExceptT ρ (Prog S) ρ) := fun _ =>
  ⟨fun _ => rfl, fun h => absurd hP h⟩

theorem decides_refuse {f : ρ → ExceptT ρ (Prog S) ρ} (hP : ¬ P)
    (hf : ∀ v, ∃ v', ¬ Good v' ∧ ((f v : Prog S (Except ρ ρ)) = .ret (.ok v') ∨
      (f v : Prog S (Except ρ ρ)) = .ret (.error v'))) : Decides a Good P f := fun v => by
  refine ⟨fun h => absurd h hP, fun _ => ?_⟩
  obtain ⟨v', hbad, hv | hv⟩ := hf v
  · rw [hv]
    exact hbad
  · rw [hv]
    exact hbad

theorem decides_congr (h : P ↔ Q) (hc : Decides a Good P c) : Decides a Good Q c := fun v =>
  ⟨fun hQ => (hc v).1 (h.2 hQ), fun hQ => (hc v).2 fun hP => hQ (h.1 hP)⟩

/-- One check after another: neither takes back what the other has found. -/
theorem decides_seq (hc : Decides a Good P c) (hd : Decides a Good Q d) :
    Decides a Good (P ∧ Q) fun v => c v >>= d := fun v => by
  simp only [eval_ebind]
  by_cases hP : P
  · rw [(hc v).1 hP, onOk_ok]
    exact ⟨fun h => (hd v).1 h.2, fun h => (hd v).2 fun hQ => h ⟨hP, hQ⟩⟩
  · refine ⟨fun h => absurd h.1 hP, fun _ => ?_⟩
    have hbad := (hc v).2 hP
    cases hr : (c v : Prog S (Except ρ ρ)).eval a with
    | error v' =>
      rw [hr] at hbad
      exact hbad
    | ok v' =>
      rw [hr] at hbad
      rw [onOk_ok]
      by_cases hQ : Q
      · rw [(hd v').1 hQ]
        exact hbad
      · exact (hd v').2 hQ

theorem decides_onlyIf {B : Prop} [Decidable B] (hc : Decides a Good P c) : Decides a Good (B → P) (onlyIf B c) := by
  by_cases hB : B
  · have heq : onlyIf B c = c := funext fun v => if_pos hB
    rw [heq]
    exact decides_congr (by simp [hB]) hc
  · have heq : onlyIf B c = pure := funext fun v => if_neg hB
    rw [heq]
    exact decides_pass fun h => absurd h hB

theorem good_iff_of_decides {v : ρ} (hc : Decides a Good P c) (hv : Good v) :
    Good (settled ((c v : Prog S (Except ρ ρ)).eval a)) ↔ P := by
  by_cases hP : P
  · rw [(hc v).1 hP]
    exact iff_of_true hv hP
  · exact iff_of_false ((hc v).2 hP) hP

end

/-! ## Permissions -/

section
variable (needs : S.Op → Prop) (grants : (o : S.Op) → S.Resp o → Prop)

/-- `g`: the permission has been granted before. -/
def Guarded (g : Prop) : Prog S α → Prop
  | .ret _ => True
  | .op o k => (needs o → g) ∧ ∀ r, (k r).Guarded (g ∨ grants o r)

variable {needs grants}

theorem guarded_of_granted {g : Prop} (hg : g) : ∀ p : Prog S α, p.Guarded needs grants g
  | .ret _ => trivial
  | .op _ k => ⟨fun _ => hg, fun r => guarded_of_granted (Or.inl hg) (k r)⟩

/-- What needs no permission may come first. -/
theorem guarded_ebind {f : α → ExceptT ε (Prog S) β}
    (hf : ∀ a g, (f a : Prog S (Except ε β)).Guarded needs grants g) : ∀ {x : Prog S (Except ε α)} {g : Prop},
      x.Uses (fun o => ¬ needs o) (fun _ => True) → (x.bind (onOk f)).Guarded needs grants g
  | .ret (.ok a), g, _ => hf a g
  | .ret (.error _), _, _ => trivial
  | .op _ _, _, hx => ⟨fun h => absurd h hx.1, fun r => guarded_ebind hf (hx.2 r)⟩

theorem guarded_bind_ret {f : α → β} : ∀ {p : Prog S α} {g : Prop}, p.Guarded needs grants g →
    (p.bind fun x => .ret (f x)).Guarded needs grants g
  | .ret _, _, _ => trivial
  | .op _ _, _, hp => ⟨hp.1, fun r => guarded_bind_ret (hp.2 r)⟩

theorem wpc_of_guarded {h : φ → (o : S.Op) → σ → S.Resp o × σ} {C G : σ → Prop}
    (hstep : ∀ f o s, C s → (needs o → G s) → C (h f o s).2 ∧ (G s ∨ grants o (h f o s).1 → G (h f o s).2)) :
    ∀ {p : Prog S α} {g : Prop} {s : σ}, p.Guarded needs grants g → (g → G s) → C s → p.wpc h C (fun _ _ => True) s
  | .ret _, _, _, _, _, hC => ⟨hC, trivial⟩
  | .op o k, g, s, hp, hg, hC => by
    refine ⟨hC, fun f => ?_⟩
    obtain ⟨hC', hG'⟩ := hstep f o s hC fun hn => hg (hp.1 hn)
    exact wpc_of_guarded hstep (hp.2 _) (fun h => hG' (h.imp_left hg)) hC'

/-- An operation, and how it was answered. -/
abbrev Call (S : Sig) := Σ o : S.Op, S.Resp o

def record (f : (o : S.Op) → S.Resp o) (o : S.Op) (done : List (Call S)) : S.Resp o × List (Call S) :=
  (f o, done ++ [⟨o, f o⟩])

/-- The calls of a run whose operations are answered by one of `fs` after another. -/
def calls [Inhabited ((o : S.Op) → S.Resp o)] (p : Prog S α) (fs : List ((o : S.Op) → S.Resp o)) : List (Call S) :=
  (p.run record fs []).2.2

/-- A call with a grant comes before every call that needs it. -/
def GrantedFirst (needs : S.Op → Prop) (grants : (o : S.Op) → S.Resp o → Prop) (done : List (Call S)) : Prop :=
  ∀ before c after, done = before ++ c :: after → needs c.1 → ∃ b ∈ before, grants b.1 b.2

theorem grantedFirst_append {done : List (Call S)} {c : Call S} (h : GrantedFirst needs grants done)
    (hc : needs c.1 → ∃ b ∈ done, grants b.1 b.2) : GrantedFirst needs grants (done ++ [c]) := by
  intro before d after hd hneeds
  rcases List.eq_nil_or_concat after with rfl | ⟨after, last, rfl⟩
  · obtain ⟨rfl, hlast⟩ := List.append_inj' hd rfl
    obtain rfl := List.singleton_inj.1 hlast
    exact hc hneeds
  · rw [List.concat_eq_append, ← List.cons_append, ← List.append_assoc] at hd
    exact h before d after (List.append_inj' hd rfl).1 hneeds

theorem grantedFirst_calls [Inhabited ((o : S.Op) → S.Resp o)] {p : Prog S α} (hp : p.Guarded needs grants False)
    (fs : List ((o : S.Op) → S.Resp o)) : GrantedFirst needs grants (p.calls fs) := by
  have hstep : ∀ (f : (o : S.Op) → S.Resp o) (o : S.Op) (done : List (Call S)), GrantedFirst needs grants done →
      (needs o → ∃ b ∈ done, grants b.1 b.2) → GrantedFirst needs grants (record f o done).2 ∧
        ((∃ b ∈ done, grants b.1 b.2) ∨ grants o (record f o done).1 → ∃ b ∈ (record f o done).2, grants b.1 b.2) := by
    intro f o done hdone hn
    refine ⟨grantedFirst_append hdone hn, ?_⟩
    rintro (⟨b, hb, hgrant⟩ | hgrant)
    · exact ⟨b, List.mem_append_left _ hb, hgrant⟩
    · exact ⟨⟨o, f o⟩, List.mem_append_right _ (List.mem_singleton.2 rfl), hgrant⟩
  have hnil : GrantedFirst needs grants ([] : List (Call S)) := fun before c after h => absurd h (by simp)
  exact (run_of_wpc fs (wpc_of_guarded hstep hp False.elim hnil)).1

end

/-! ## Whole runs -/

/-- `done` may be the calls of a run to the end that returns `a`. -/
def Whole : Prog S α → List (Call S) → α → Prop
  | .ret b, done, a => done = [] ∧ a = b
  | .op o k, done, a => ∃ r rest, done = ⟨o, r⟩ :: rest ∧ (k r).Whole rest a

theorem run_record [Inhabited ((o : S.Op) → S.Resp o)] : ∀ (p : Prog S α) (fs : List ((o : S.Op) → S.Resp o))
    (done : List (Call S)), ∃ rest, (p.run record fs done).2.2 = done ++ rest ∧ p.Whole rest (p.run record fs done).1
  | .ret _, _, done => ⟨[], (List.append_nil done).symm, rfl, rfl⟩
  | .op o k, fs, done => by
    obtain ⟨rest, hrest, hk⟩ := run_record (k (fs.headI o)) fs.tail (done ++ [⟨o, fs.headI o⟩])
    exact ⟨⟨o, fs.headI o⟩ :: rest, by rw [List.append_cons]; exact hrest, fs.headI o, rest, rfl, hk⟩

theorem whole_calls [Inhabited ((o : S.Op) → S.Resp o)] (p : Prog S α) (fs : List ((o : S.Op) → S.Resp o)) :
    ∃ a, p.Whole (p.calls fs) a := by
  obtain ⟨rest, hrest, hp⟩ := run_record p fs []
  exact ⟨_, by rw [calls, hrest]; exact hp⟩

theorem whole_of_uses {P : S.Op → Prop} {Q : α → Prop} : ∀ {p : Prog S α} {done : List (Call S)} {a : α}, p.Uses P Q →
    p.Whole done a → (∀ c ∈ done, P c.1) ∧ Q a
  | .ret _, _, _, hp, ⟨hdone, ha⟩ => by
    subst hdone ha
    exact ⟨nofun, hp⟩
  | .op _ _, _, _, hp, ⟨r, _, hdone, hk⟩ => by
    subst hdone
    obtain ⟨hrest, ha⟩ := whole_of_uses (hp.2 r) hk
    exact ⟨List.forall_mem_cons.2 ⟨hp.1, hrest⟩, ha⟩

theorem whole_bind {f : α → Prog S β} {b : β} : ∀ {p : Prog S α} {done : List (Call S)}, (p.bind f).Whole done b →
    ∃ first a rest, done = first ++ rest ∧ p.Whole first a ∧ (f a).Whole rest b
  | .ret a, done, h => ⟨[], a, done, rfl, ⟨rfl, rfl⟩, h⟩
  | .op o k, _, ⟨r, _, hdone, h⟩ => by
    obtain ⟨first, a, rest, rfl, hk, hf⟩ := whole_bind h
    exact ⟨⟨o, r⟩ :: first, a, rest, hdone, ⟨r, first, rfl, hk⟩, hf⟩

/-- Sequencing with `←`: an error ends the run. -/
theorem whole_ebind {x : ExceptT ε (Prog S) α} {f : α → ExceptT ε (Prog S) β} {done : List (Call S)}
    {b : Except ε β} (h : Whole (α := Except ε β) (x >>= f : ExceptT ε (Prog S) β) done b) :
    (∃ e, Whole (α := Except ε α) x done (.error e) ∧ b = .error e) ∨
      ∃ first a rest, done = first ++ rest ∧ Whole (α := Except ε α) x first (.ok a) ∧
        Whole (α := Except ε β) (f a) rest b := by
  rw [ebind_eq] at h
  obtain ⟨first, r, rest, rfl, hx, hf⟩ := whole_bind h
  cases r with
  | error e =>
    obtain ⟨rfl, rfl⟩ := hf
    exact Or.inl ⟨e, by rwa [List.append_nil], rfl⟩
  | ok a => exact Or.inr ⟨first, a, rest, rfl, hx, hf⟩

end Prog
end Effects
