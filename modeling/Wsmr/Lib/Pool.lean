import Wsmr.Lib.Prog

/-!
# A pool of programs over one shared state

Any number of programs take turns, one operation at a time, in an order that a list of events
dictates; an event may also kill a program. A *machine* says what an operation does for the
program that asks (`none`: it has to wait) and in what state a program killed at an operation
leaves the shared state.

* `exec_induct` — what every admitted event preserves holds after every run.
* `along_iff` — a property holds all along a run exactly when every event is admitted by the
  condition under which one event keeps it.
* `step_local` — one event, from a fact about the shared state and one fact for each program: the
  program that moves keeps both, the others' facts survive its move.
-/

namespace Effects

/-- `none` stands for a program that was killed. -/
structure Pool (S : Sig) (α σ : Type) where
  shared : σ
  procs : List (Option (Prog S α))

/-- Program `i` carries on, or is killed. -/
inductive Event (φ κ : Type) where
  | run (i : Nat) (f : φ)
  | kill (i : Nat) (c : κ)

/-- Whose event it is. -/
def Event.proc {φ κ : Type} : Event φ κ → Nat
  | .run i _ | .kill i _ => i

/-- The operation program `i` asks for next. -/
def Pool.next {S : Sig} {α σ : Type} (c : Pool S α σ) (i : Nat) : Option S.Op :=
  match c.procs[i]? with
  | some (some (.op o _)) => some o
  | _ => none

/-- Every program has returned or was killed. -/
def Pool.finished {S : Sig} {α σ : Type} (c : Pool S α σ) : Bool :=
  c.procs.all fun p => match p with
    | some (.op _ _) => false
    | _ => true

/-- Program `i` has returned. -/
def Pool.returned {S : Sig} {α σ : Type} (c : Pool S α σ) (i : Nat) : Bool :=
  match c.procs[i]? with
  | some (some (.ret _)) => true
  | _ => false

theorem Pool.returned_iff {S : Sig} {α σ : Type} {c : Pool S α σ} {i : Nat} :
    c.returned i = true ↔ ∃ a, c.procs[i]? = some (some (.ret a)) := by
  unfold Pool.returned
  split
  · rename_i a h
    exact iff_of_true rfl ⟨a, h⟩
  · rename_i h
    exact iff_of_false nofun fun ⟨a, ha⟩ => h a ha

theorem Pool.next_eq_some {S : Sig} {α σ : Type} {c : Pool S α σ} {i : Nat} {o : S.Op} :
    c.next i = some o ↔ ∃ k, c.procs[i]? = some (some (.op o k)) := by
  unfold Pool.next
  split
  · rename_i o' k h
    simp only [Option.some.injEq, h, Prog.op.injEq]
    exact ⟨fun e => ⟨e ▸ k, e, by cases e; rfl⟩, fun ⟨_, e, _⟩ => e⟩
  · rename_i h
    exact ⟨nofun, fun ⟨k, hk⟩ => absurd hk (h o k)⟩

structure Machine (S : Sig) (σ φ κ : Type) where
  step : Nat → φ → (o : S.Op) → σ → Option (S.Resp o × σ)
  kill : Nat → κ → S.Op → σ → σ

namespace Machine

variable {S : Sig} {α σ φ κ : Type} (M : Machine S σ φ κ)

/-- A program that has returned, was killed or has to wait does not move. -/
def event (c : Pool S α σ) : Event φ κ → Pool S α σ
  | .run i f => match c.procs[i]? with
    | some (some (.op o k)) => match M.step i f o c.shared with
      | some (r, s) => ⟨s, c.procs.set i (some (k r))⟩
      | none => c
    | _ => c
  | .kill i x => match c.procs[i]? with
    | some (some (.op o _)) => ⟨M.kill i x o c.shared, c.procs.set i none⟩
    | _ => c

def exec : List (Event φ κ) → Pool S α σ → Pool S α σ
  | [], c => c
  | e :: es, c => exec es (M.event c e)

/-- Every event of the run is admitted by `G` in the state it meets. -/
def Along (G : Pool S α σ → Event φ κ → Prop) : List (Event φ κ) → Pool S α σ → Prop
  | [], _ => True
  | e :: es, c => G c e ∧ Along G es (M.event c e)

variable {M}

theorem event_of_next_none {c : Pool S α σ} {e : Event φ κ} (h : c.next e.proc = none) : M.event c e = c := by
  have hne : ∀ o k, c.procs[e.proc]? ≠ some (some (.op o k)) := fun o k hk =>
    absurd (h.symm.trans (Pool.next_eq_some.2 ⟨k, hk⟩)) nofun
  cases e with
  | run i f =>
    simp only [event]
    split
    · rename_i o k hp
      exact absurd hp (hne o k)
    · rfl
  | kill i x =>
    simp only [event]
    split
    · rename_i o k hp
      exact absurd hp (hne o k)
    · rfl

theorem event_run {c : Pool S α σ} {i : Nat} {f : φ} {o : S.Op} {k : S.Resp o → Prog S α} {r : S.Resp o} {s : σ}
    (hp : c.procs[i]? = some (some (.op o k))) (hs : M.step i f o c.shared = some (r, s)) :
    M.event c (.run i f) = ⟨s, c.procs.set i (some (k r))⟩ := by
  simp only [event, hp, hs]

theorem event_kill {c : Pool S α σ} {i : Nat} {x : κ} {o : S.Op} {k : S.Resp o → Prog S α}
    (hp : c.procs[i]? = some (some (.op o k))) :
    M.event c (.kill i x) = ⟨M.kill i x o c.shared, c.procs.set i none⟩ := by
  simp only [event, hp]

theorem exec_induct {P : Pool S α σ → Prop} {G : Pool S α σ → Event φ κ → Prop}
    (h : ∀ c e, P c → G c e → P (M.event c e)) :
    ∀ (es : List (Event φ κ)) {c : Pool S α σ}, P c → M.Along G es c → P (M.exec es c)
  | [], _, hc, _ => hc
  | e :: es, c, hc, hg => exec_induct h es (h c e hc hg.1) hg.2

theorem along_true : ∀ (es : List (Event φ κ)) (c : Pool S α σ), M.Along (fun _ _ => True) es c
  | [], _ => trivial
  | _ :: es, _ => ⟨trivial, along_true es _⟩

theorem Along.take {G : Pool S α σ → Event φ κ → Prop} : ∀ {es : List (Event φ κ)} {c : Pool S α σ},
    M.Along G es c → ∀ m, M.Along G (es.take m) c
  | _, _, _, 0 => trivial
  | [], _, _, _ + 1 => trivial
  | _ :: _, _, h, m + 1 => ⟨h.1, h.2.take m⟩

/-- Given an invariant `I` of all runs. -/
theorem along_iff {I P : Pool S α σ → Prop} {G : Pool S α σ → Event φ κ → Prop}
    (hI : ∀ c e, I c → I (M.event c e)) (h : ∀ c e, I c → P c → (P (M.event c e) ↔ G c e)) :
    ∀ (es : List (Event φ κ)) {c : Pool S α σ}, I c → P c →
      ((∀ m, P (M.exec (es.take m) c)) ↔ M.Along G es c)
  | [], _, _, hp => ⟨fun _ => trivial, fun _ m => by rw [List.take_nil]; exact hp⟩
  | e :: es, c, hi, hp => by
    constructor
    · intro hall
      have h1 : P (M.event c e) := hall 1
      exact ⟨(h c e hi hp).1 h1, (along_iff hI h es (hI c e hi) h1).1 fun m => hall (m + 1)⟩
    · rintro ⟨hg, hrest⟩ m
      cases m with
      | zero => exact hp
      | succ m => exact (along_iff hI h es (hI c e hi) ((h c e hi hp).2 hg)).2 hrest m

/-- `I` holds of the shared state and `L i p` for every program `p` still there. -/
def Local (I : σ → Prop) (L : Nat → Prog S α → σ → Prop) (c : Pool S α σ) : Prop :=
  I c.shared ∧ ∀ i p, c.procs[i]? = some (some p) → L i p c.shared

theorem step_local {I : σ → Prop} {L : Nat → Prog S α → σ → Prop} {c : Pool S α σ} {e : Event φ κ}
    (hrun : ∀ i f o k r s, e = .run i f → c.procs[i]? = some (some (.op o k)) →
      M.step i f o c.shared = some (r, s) →
      I s ∧ L i (k r) s ∧ ∀ j q, j ≠ i → c.procs[j]? = some (some q) → L j q s)
    (hkill : ∀ i x o k, e = .kill i x → c.procs[i]? = some (some (.op o k)) →
      I (M.kill i x o c.shared) ∧
        ∀ j q, j ≠ i → c.procs[j]? = some (some q) → L j q (M.kill i x o c.shared))
    (hc : Local I L c) : Local I L (M.event c e) := by
  cases e with
  | run i f =>
    simp only [event]
    split
    · rename_i o k hp
      split
      · rename_i r s hs
        obtain ⟨hI, hi, hj⟩ := hrun i f o k r s rfl hp hs
        refine ⟨hI, fun j q hq => ?_⟩
        by_cases hji : j = i
        · subst hji
          rw [List.getElem?_set_self (List.getElem?_eq_some_iff.1 hp).1] at hq
          obtain rfl := Option.some.inj (Option.some.inj hq)
          exact hi
        · rw [List.getElem?_set_ne (Ne.symm hji)] at hq
          exact hj j q hji hq
      · exact hc
    · exact hc
  | kill i x =>
    simp only [event]
    split
    · rename_i o k hp
      obtain ⟨hI, hj⟩ := hkill i x o k rfl hp
      refine ⟨hI, fun j q hq => ?_⟩
      by_cases hji : j = i
      · subst hji
        rw [List.getElem?_set_self (List.getElem?_eq_some_iff.1 hp).1] at hq
        exact absurd hq (by simp)
      · rw [List.getElem?_set_ne (Ne.symm hji)] at hq
        exact hj j q hji hq
    · exact hc

/-- The facts at the start, from what holds of the programs as given. -/
theorem local_start {I : σ → Prop} {L : Nat → Prog S α → σ → Prop} {s : σ} {ps : List (Prog S α)}
    (hI : I s) (hL : ∀ i p, ps[i]? = some p → L i p s) : Local I L ⟨s, ps.map some⟩ := by
  refine ⟨hI, fun i p hp => hL i p ?_⟩
  simp only [List.getElem?_map, Option.map_eq_some_iff, Option.some.injEq] at hp
  obtain ⟨q, hq, rfl⟩ := hp
  exact hq

end Machine
end Effects
