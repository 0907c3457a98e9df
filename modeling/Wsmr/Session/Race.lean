import Wsmr.Session.Restoration

/-!
# Exporters race with cleanup and with one another

An exporter records names in one step and sets them in a later one; the lock covers only the first.
An `end_generation` in between clears the entries away before the variables are there (`NoLeak`), and
the readiness watcher may write back values that a `finalize` has replaced since it read them
(`NewestExports`). Away from these two windows both properties hold in every state of every run.
-/

namespace Wsmr

open Text Std Effects

section
variable {may : Prim → Bool} {oracle : Oracle} {base : ActEnv} {w t : World} {s : Run}

theorem getElem?_of_appliedVars {fs : List Fault} {vars : Env} {k v : Str}
    (h : (appliedVars may fs vars)[k]? = some v) : vars[k]? = some v := by
  unfold appliedVars at h
  dsimp only at h
  split at h
  · simp at h
  · split at h
    · rw [ExtTreeMap.getElem?_filter', Option.filter_eq_some_iff] at h
      exact h.1
    · exact h

/-- The bindings that a step puts into systemd's environment. -/
def Cmd.puts (may : Prim → Bool) (fs : List Fault) : Cmd → Env
  | .setSystemdVars vars => appliedVars may fs vars
  | _ => ∅

theorem sets_note {h : History} {i : Nat} {fs : List Fault} {c : Cmd} {ok : Bool} :
    (h.note may i fs c ok).sets = match c with
      | .setSystemdVars _ => (i, c.puts may fs) :: h.sets
      | _ => h.sets := by
  cases c <;> rfl

/-- A process killed before the first call of a step has not begun the step. -/
theorem kill_unmoved {i : Nat} {x : Kill} {c : Cmd} (h : x.calls = 0) : (session may).kill i x c s = s := by
  show Run.mk (stopIo may x.calls _ _ _) (if x.calls = 0 then s.history else _) = s
  rw [if_pos h, h]
  rfl

theorem kill_moved {i : Nat} {x : Kill} {c : Cmd} (h : x.calls ≠ 0) :
    (session may).kill i x c s = ⟨stopIo may x.calls (c.io x.choice.oracle) x.choice.faults s.world,
      s.history.note may i x.choice.faults c false⟩ := by
  show Run.mk _ (if x.calls = 0 then _ else _) = _
  rw [if_neg h]

/-! ## Cleanup while exporters run -/

/-- The generation of a session that found `base`, and its snapshot, are on disk. -/
structure Established (base : ActEnv) (w : World) : Prop where
  current : ∃ g, w.disk.current = some g ∧ TagOk g
  snapshot : ∀ k, w.disk.snapshot k = if keepName k then base k else none

/-- `k` is not bound, or will be taken away. -/
def Held (w : World) (k : Str) : Prop := w.systemd k = none ∨ w.disk.Listed k

/-- Names that cleanup has to take away again. -/
def Foreign (base : ActEnv) (k : Str) : Prop := base k = none ∧ k ∉ neverCleanup

/-- Nothing that was exported and is not part of `base` stays without an entry on record. -/
def NoLeak (base : ActEnv) (s : Run) : Prop :=
  ∀ x ∈ s.history.sets, ∀ k v : Str, x.2[k]? = some v → Foreign base k → Held s.world k

/-- Names that may be set: a foreign one is on record. -/
def Covered (base : ActEnv) (w : World) : Set Str := {k | Foreign base k → w.disk.Listed k}

/-- What is on record belongs to a session of `base`. -/
structure OnRecord (base : ActEnv) (w : World) : Prop where
  tag : ∀ g, w.disk.current = some g → TagOk g
  snapshot : ∀ k, base k = none → w.disk.snapshot k = none

/-- Nothing is lost from `w` to `t`. -/
structure Holding (base : ActEnv) (w t : World) : Prop where
  onRecord : OnRecord base t
  covered : Covered base w ⊆ Covered base t
  held : ∀ k, Foreign base k → Held w k → Held t k

theorem Established.onRecord (h : Established base w) : OnRecord base w where
  tag g hg := by
    obtain ⟨g', hg', htag⟩ := h.current
    exact Option.some.inj (hg.symm.trans hg') ▸ htag
  snapshot k hk := by rw [h.snapshot, hk]; split <;> rfl

theorem OnRecord.holding (h : OnRecord base w) : Holding base w w := ⟨h, subset_rfl, fun _ _ => id⟩

theorem covered_of_sameState (h : SameState w.disk t.disk) : Covered base w ⊆ Covered base t := by
  intro k hk hf
  obtain ⟨g, hg, he⟩ := hk hf
  exact ⟨g, h.current.trans hg, h.entries ▸ he⟩

theorem Untouched.holding (h : Untouched w t) (ho : OnRecord base w) : Holding base w t := by
  have hl : ∀ k, t.disk.Listed k ↔ w.disk.Listed k := fun k => by
    unfold Disk.Listed
    rw [h.disk.current, h.disk.entries]
  refine ⟨⟨h.disk.current ▸ ho.tag, h.disk.snapshot ▸ ho.snapshot⟩, fun k hk hf => (hl k).2 (hk hf), fun k _ hk => ?_⟩
  exact hk.imp (fun e => h.systemd ▸ e) (hl k).2

theorem holding_record (ho : OnRecord base w) {g : Str} {names : List Str} (hg : w.disk.current = some g) :
    Holding base w (w.record g names) ∧ ∀ k ∈ names, keepName k = true → (w.record g names).disk.Listed k := by
  have hl : ∀ k, (w.record g names).disk.Listed k ↔ w.disk.Listed k ∨ (k ∈ names ∧ keepName k = true) :=
    fun k => listed_record (ho.tag g hg) hg
  refine ⟨⟨⟨fun g' hg' => ho.tag g' ?_, fun k hk => ?_⟩, fun k hk hf => (hl k).2 (Or.inl (hk hf)), fun k _ hk => ?_⟩,
    fun k hk hkeep => (hl k).2 (Or.inr ⟨hk, hkeep⟩)⟩
  · rwa [Disk.current, disk_record (by decide)] at hg'
  · rw [snapshot_record]; exact ho.snapshot k hk
  · exact hk.imp_right fun h => (hl k).2 (Or.inl h)

theorem holding_wrote (ho : OnRecord base w) {vars : Env} (hw : Wrote vars w t)
    (hv : ∀ k v : Str, vars[k]? = some v → k ∈ Covered base w) : Holding base w t := by
  refine ⟨⟨by rw [hw.disk]; exact ho.tag, by rw [hw.disk]; exact ho.snapshot⟩, fun k hk hf => ?_, fun k hf hk => ?_⟩
  · rw [hw.disk]; exact hk hf
  · rw [Held, hw.disk]
    rcases hw.systemd k with e | ⟨v, hkv, _⟩
    · rw [e]; exact hk
    · exact Or.inr (hv k v hkv hf)

/-- **Restoring takes away what is listed**, wherever it stops. -/
theorem held_restoring (ho : OnRecord base w) (hr : Restoring w t) :
    OnRecord base t ∧ ∀ k, Foreign base k → Held w k → Held t k := by
  have hsettled : ∀ k, Foreign base k → Held w k → settled w k = none := by
    rintro k ⟨hb, hn⟩ hk
    by_cases hown : k ∈ w.disk.owed
    · exact Ledger.settle_owed (ho.snapshot k hb) hown
    · rw [settled, Ledger.settle_else (ho.snapshot k hb) hown]
      exact hk.resolve_right fun hl => hown ⟨Or.inl hl, hn⟩
  cases hr with
  | start h =>
    subst h
    exact ⟨ho, fun _ _ => id⟩
  | settling _ h =>
    refine ⟨⟨by rw [h.disk]; exact ho.tag, by rw [h.disk]; exact ho.snapshot⟩, fun k hf hk => ?_⟩
    rcases h.between k with e | e
    · rw [Held, e, h.disk]; exact hk
    · exact Or.inl (e.trans (hsettled k hf hk))
  | clearing _ hs hd =>
    refine ⟨⟨fun g hg => ?_, fun k hk => ?_⟩, fun k hf hk => Or.inl ((hs k).trans (hsettled k hf hk))⟩
    · rcases hd .generation rfl with e | e
      · rw [Disk.current, e] at hg; exact ho.tag g hg
      · simp [Disk.current, e, generationOf] at hg
    · rcases hd .envPre rfl with e | e
      · rw [Disk.snapshot, Disk.pre, e]; exact ho.snapshot k hk
      · simp [Disk.snapshot, Disk.pre, e, loadEnv]

theorem Cmd.Sees.reports {c : Cmd} {r : Except Error c.Value} (h : c.Sees w.systemd.vars.kept r) : c.Reports r := by
  cases c with
  | systemdVars =>
    cases r with
    | ok env => exact (show env = _ from h) ▸ keptNames_kept _
    | error _ => trivial
  | _ => trivial

/-- A step of an exporter loses nothing, wherever it stops. -/
theorem exporter_step (oracle : Oracle) (ho : OnRecord base w) {c : Cmd} (hc : Allowed false (Covered base w) c) :
    Prog.wpc (S := prims) (handle may) (Holding base w)
      (fun r t => c.Reports r ∧ ((∃ a, r = .ok a) → c.records ⊆ Covered base t)) (c.io oracle) w := by
  by_cases hq : Quiet c
  · refine Prog.wpc_mono (fun t ht => ht.holding ho) (fun r t _ hr => ⟨hr.reports, fun _ => ?_⟩) (quiet_step oracle hq)
    cases c <;> first | exact Set.empty_subset _ | exact hq.elim
  · cases c with
    | appendCleanup names =>
      refine Prog.wpc_mono ?_ ?_ (appendCleanup_spec names)
      · rintro t (rfl | ⟨g, hg, rfl⟩)
        · exact ho.holding
        · exact (holding_record ho hg).1
      · rintro r t _ hr
        refine ⟨trivial, ?_⟩
        rintro ⟨_, rfl⟩ k ⟨hk, hkeep⟩ _
        obtain ⟨g, hg, ⟨rfl, hm⟩ | rfl⟩ := hr rfl
        · exact ⟨g, hg, hm ▸ mem_insertNames.2 (Or.inr ⟨rfl, hk, hkeep⟩)⟩
        · exact (holding_record ho hg).2 k hk hkeep
    | setSystemdVars vars =>
      refine Prog.wpc_mono (fun t hw => holding_wrote ho hw fun k v hv hf => ?_)
        (fun _ _ _ _ => ⟨trivial, fun _ => Set.empty_subset _⟩) (setSystemdVars_spec fun k v hv => (hc k v hv).1)
      exact (hc k v hv).2.elim (absurd · hf.2) (· hf)
    | unsetSystemdVars names => exact absurd hc.1 nofun
    | _ => exact absurd hc hq

/-- What a step sets is held afterwards. -/
theorem noLeak_note {c : Cmd} {i : Nat} {fs : List Fault} {ok : Bool} (hn : NoLeak base s)
    (hheld : ∀ k, Foreign base k → Held s.world k → Held t k)
    (hc : ∀ vars, c = .setSystemdVars vars → ∀ k v : Str, vars[k]? = some v → k ∈ Covered base t) :
    NoLeak base ⟨t, s.history.note may i fs c ok⟩ := by
  have hold : ∀ x ∈ s.history.sets, ∀ k v : Str, x.2[k]? = some v → Foreign base k → Held t k :=
    fun x hx k v hv hf => hheld k hf (hn x hx k v hv hf)
  intro x hx
  rw [sets_note] at hx
  split at hx
  · rename_i vars
    rcases List.mem_cons.1 hx with rfl | hx
    · exact fun k v hv hf => Or.inr (hc vars rfl k v (getElem?_of_appliedVars hv) hf)
    · exact hold x hx
  · exact hold x hx

/-- The files, and what has been exported so far. -/
structure Racing (base : ActEnv) (s : Run) : Prop where
  onRecord : OnRecord base s.world
  noLeak : NoLeak base s

/-- A process that exports what is recorded, or one that cleans up. -/
def MayRace (base : ActEnv) (s : Run) (p : Prog cmds (Except Error Unit)) : Prop :=
  (∃ recorded ⊆ Covered base s.world, Disciplined false recorded p) ∨
    p.Uses (fun c => c = Cmd.endGeneration ∨ Quiet c) fun _ => True

/-- The process sets foreign names next. -/
def Exposed {α : Type} (base : ActEnv) : Prog cmds α → Prop
  | .op (.setSystemdVars vars) _ => ∃ k v : Str, vars[k]? = some v ∧ Foreign base k
  | _ => False

/-- No `end_generation` gets as far as its removals while a process stands between recording foreign
names and setting them. One that is killed or fails before leaves the state files as they are. -/
def CleanupApart (may : Prim → Bool) (base : ActEnv) (c : Pool cmds (Except Error Unit) Run)
    (e : Event Choice Kill) : Prop :=
  c.next e.proc = some Cmd.endGeneration →
    ¬ SameState c.shared.world.disk ((session may).event c e).shared.world.disk →
      ∀ p, some p ∈ c.procs → ¬ Exposed base p

/-- Who is not about to set foreign names does not depend on what is on record. -/
theorem MayRace.unexposed {s' : Run} {p : Prog cmds (Except Error Unit)} (h : MayRace base s p)
    (hp : ¬ Exposed base p) : MayRace base s' p := by
  rcases h with ⟨recorded, _, hd⟩ | h
  · refine Or.inl ⟨{k | ¬ Foreign base k}, fun k hk hf => absurd hf hk, ?_⟩
    cases p with
    | ret _ => trivial
    | op c k =>
      refine ⟨?_, hd.2⟩
      cases c with
      | setSystemdVars vars =>
        exact fun k v hv => ⟨(hd.1 k v hv).1, Or.inr fun hf => hp ⟨k, v, hv, hf⟩⟩
      | _ => exact hd.1
  · exact Or.inr h

theorem MayRace.covered {s' : Run} {p : Prog cmds (Except Error Unit)} (h : MayRace base s p)
    (hc : Covered base s.world ⊆ Covered base s'.world) : MayRace base s' p :=
  h.imp_left fun ⟨own, hown, hd⟩ => ⟨own, hown.trans hc, hd⟩

theorem Racing.exporter {c : Cmd} {i : Nat} {fs : List Fault} {ok : Bool} (h : Racing base s)
    (hc : Allowed false (Covered base s.world) c) (ht : Holding base s.world t) :
    Racing base ⟨t, s.history.note may i fs c ok⟩ := by
  refine ⟨ht.onRecord, noLeak_note h.noLeak ht.held ?_⟩
  rintro vars rfl k v hv
  exact ht.covered fun hf => (hc k v hv).2.elim (absurd · hf.2) (· hf)

theorem Racing.closer {c : Cmd} {i : Nat} {fs : List Fault} {ok : Bool} (h : Racing base s)
    (hc : c = .endGeneration ∨ Quiet c)
    (ht : OnRecord base t ∧ ∀ k, Foreign base k → Held s.world k → Held t k) :
    Racing base ⟨t, s.history.note may i fs c ok⟩ := by
  refine ⟨ht.1, noLeak_note h.noLeak ht.2 ?_⟩
  rintro vars rfl
  exact absurd (hc.resolve_left nofun) id

/-- A step of a process that cleans up. -/
theorem closer_step (oracle : Oracle) (ho : OnRecord base w) {c : Cmd} (hc : c = .endGeneration ∨ Quiet c) :
    Prog.wpc (S := prims) (handle may)
      (fun t => (OnRecord base t ∧ ∀ k, Foreign base k → Held w k → Held t k) ∧
        (c ≠ .endGeneration → Covered base w ⊆ Covered base t)) (fun _ _ => True) (c.io oracle) w := by
  rcases hc with rfl | hq
  · exact Prog.wpc_mono (fun t ht => ⟨held_restoring ho ht, fun h => absurd rfl h⟩) (fun _ _ _ _ => trivial)
      endGeneration_spec
  · refine Prog.wpc_mono (fun t ht => ?_) (fun _ _ _ _ => trivial) (quiet_step oracle hq)
    have hh := ht.holding ho
    exact ⟨⟨hh.onRecord, hh.held⟩, fun _ => hh.covered⟩

/-- One event away from the window between recording and setting. -/
theorem racing_event {c : Pool cmds (Except Error Unit) Run} {e : Event Choice Kill}
    (hc : Machine.Local (Racing base) (fun _ p s => MayRace base s p) c) (hg : CleanupApart may base c e) :
    Machine.Local (Racing base) (fun _ p s => MayRace base s p) ((session may).event c e) := by
  -- what the others may do after a move of `i`
  have hothers : ∀ {i : Nat} {o : Cmd} {k : Except Error o.Value → Prog cmds (Except Error Unit)},
      e.proc = i → c.procs[i]? = some (some (.op o k)) → ∀ s' : Run, ((session may).event c e).shared = s' →
      (o ≠ .endGeneration → Covered base c.shared.world ⊆ Covered base s'.world) →
      ∀ q, some q ∈ c.procs → MayRace base c.shared q → MayRace base s' q := by
    intro i o k hi hp s' hs' hcov q hq hmay
    by_cases ho : o = .endGeneration
    · by_cases hsame : SameState c.shared.world.disk s'.world.disk
      · exact hmay.covered (covered_of_sameState hsame)
      · refine hmay.unexposed (hg ?_ (hs' ▸ hsame) q hq)
        rw [Pool.next, hi, hp]
        exact congrArg some ho
    · exact hmay.covered (hcov ho)
  refine Machine.step_local ?_ ?_ hc
  · intro i x o k r s' he hp hs
    have hshared : ((session may).event c e).shared = s' := by rw [he, Machine.event_run hp hs]
    obtain ⟨rfl, rfl⟩ := Prod.mk.inj (Option.some.inj hs)
    have hrest := hothers (he ▸ rfl : e.proc = i) hp _ hshared
    rcases hc.2 i _ hp with ⟨own, hown, hallow, hk⟩ | ⟨hclose, hk⟩
    · obtain ⟨ht, hrep, hadd⟩ := runIo_spec may x.faults
        (exporter_step x.oracle hc.1.onRecord (hallow.mono hown))
      refine ⟨hc.1.exporter (hallow.mono hown) ht, Or.inl ⟨_, ?_, hk _ hrep⟩, fun j q _ hq => ?_⟩
      · split
        · rename_i a hr
          exact hadd ⟨a, hr⟩
        · exact Set.empty_subset _
      · exact hrest (fun _ => ht.covered) q (List.mem_of_getElem? hq) (hc.2 j q hq)
    · obtain ⟨⟨ht, hcov⟩, _⟩ := runIo_spec may x.faults
        (closer_step x.oracle hc.1.onRecord hclose)
      exact ⟨hc.1.closer hclose ht, Or.inr (hk _), fun j q _ hq =>
        hrest hcov q (List.mem_of_getElem? hq) (hc.2 j q hq)⟩
  · intro i x o k he hp
    have hrest := hothers (he ▸ rfl : e.proc = i) hp _ (by rw [he, Machine.event_kill hp])
    by_cases hcalls : x.calls = 0
    · rw [kill_unmoved hcalls]
      exact ⟨hc.1, fun j q _ hq => hc.2 j q hq⟩
    rw [kill_moved hcalls] at hrest ⊢
    rcases hc.2 i _ hp with ⟨own, hown, hallow, _⟩ | ⟨hclose, _⟩
    · have ht := stopIo_spec may x.calls x.choice.faults
        (exporter_step x.choice.oracle hc.1.onRecord (hallow.mono hown))
      exact ⟨hc.1.exporter (hallow.mono hown) ht, fun j q _ hq =>
        hrest (fun _ => ht.covered) q (List.mem_of_getElem? hq) (hc.2 j q hq)⟩
    · obtain ⟨ht, hcov⟩ := stopIo_spec may x.calls x.choice.faults
        (closer_step x.choice.oracle hc.1.onRecord hclose)
      exact ⟨hc.1.closer hclose ht, fun j q _ hq =>
        hrest hcov q (List.mem_of_getElem? hq) (hc.2 j q hq)⟩

theorem uses_cleanupEnv : Prog.Uses (S := cmds) (fun c => c = .endGeneration ∨ Quiet c) (fun _ => True) cleanupEnv := by
  unfold cleanupEnv
  rw [Prog.ebind_eq]
  refine ⟨Or.inl rfl, fun r => ?_⟩
  cases r with
  | ok _ => exact ⟨Or.inr rfl, fun _ => trivial⟩
  | error _ => trivial

/-- `begin_generation` establishes a session of the environment it finds. -/
theorem established_beginGeneration {buf : Fin 8 → UInt8} {fs : List Fault} {g : Str}
    (hok : (runIo may (beginGeneration buf w.systemd.vars.kept) fs w).1 = .ok g) :
    Established w.systemd (runIo may (beginGeneration buf w.systemd.vars.kept) fs w).2 := by
  obtain ⟨rfl, t, _, ht⟩ := (runIo_spec may fs (beginGeneration_spec buf _)).2 g hok
  rw [ht]
  exact ⟨⟨_, current_of_minted (by simp [Disk.established, Disk.write]), tagOk_randomHexId buf⟩,
    snapshot_of_saved_kept (by simp [Disk.established, Disk.write])⟩

/-- **No leak when cleanup stays out of the exporters' window.** -/
theorem no_leak_when_apart (hw : Established base w) (xs : List Exporter) (es : List (Event Choice Kill))
    (hg : (session may).Along (CleanupApart may base) es
      ⟨Run.start w, (cleanupEnv :: xs.map Exporter.task).map some⟩) (m : Nat) :
    NoLeak base (runTasks may (es.take m) w (cleanupEnv :: xs.map Exporter.task)).shared := by
  have hstart : Machine.Local (Racing base) (fun _ p s => MayRace base s p)
      ⟨Run.start w, (cleanupEnv :: xs.map Exporter.task).map some⟩ := by
    refine Machine.local_start ⟨hw.onRecord, nofun⟩ fun i p hp => ?_
    rcases List.mem_cons.1 (List.mem_of_getElem? hp) with rfl | hp
    · exact Or.inr uses_cleanupEnv
    · obtain ⟨x, _, rfl⟩ := List.mem_map.1 hp
      exact Or.inl ⟨∅, Set.empty_subset _, disciplined_exporter x⟩
  exact (Machine.exec_induct (fun c e hc hg => racing_event hc hg) _ hstart (hg.take m)).1.noLeak

/-- A check for runs on fixed inputs. -/
theorem cleanupApart_of_check {c : Pool cmds (Except Error Unit) Run} {e : Event Choice Kill}
    (h : (c.next e.proc).all (fun o => match o with | Cmd.endGeneration => false | _ => true) = true ∨
      c.procs.all (fun p => match p with
        | some (.op (Cmd.setSystemdVars _) _) => false
        | _ => true) = true) : CleanupApart may base c e := by
  intro hnext _ p hp
  rcases h with h | h
  · simp [hnext] at h
  · have hset := List.all_eq_true.1 h _ hp
    cases p with
    | ret _ => exact id
    | op o k => cases o <;> first | exact id | exact absurd hset nofun

end

/-- A session that has just begun in an environment of `vars`. -/
def underWay (vars : List (Str × Str)) : World :=
  (runIo (fun _ => false) (beginGeneration (fun _ => 0) (World.bare vars).systemd.vars.kept) [] (World.bare vars)).2

def finalizeDisplay (display : Str) : Exporter :=
  .finalize (ExtTreeMap.ofList [("WAYLAND_DISPLAY".toList, display)]) []

/-- The processes take their steps in this order, and everything works. -/
def turns (is : List Nat) : List (Event Choice Kill) := is.map fun i => .run i ⟨[], plainOracle []⟩

/-- `finalize` exports before the session is cleaned up. -/
theorem no_leak_when_apart_in_order : NoLeak (World.bare []).systemd
    (runTasks (fun _ => false) ((turns [1, 1, 0]).take 3) (underWay [])
      (cleanupEnv :: [finalizeDisplay "wayland-1".toList].map Exporter.task)).shared := by
  have hest : Established (World.bare []).systemd (underWay []) :=
    established_beginGeneration (g := randomHexId fun _ => 0) (by decide)
  refine no_leak_when_apart hest [finalizeDisplay "wayland-1".toList] (turns [1, 1, 0]) ?_ 3
  refine ⟨?_, ?_, ?_, trivial⟩ <;> exact cleanupApart_of_check (by decide)

/-- `finalize` records `WAYLAND_DISPLAY`, the session is cleaned up, `finalize` sets it. -/
def racedCleanup : Pool cmds (Except Error Unit) Run :=
  runTasks (fun _ => false) (turns [1, 0, 0, 1, 1, 1]) (underWay [])
    [cleanupEnv, (finalizeDisplay "wayland-1".toList).task]

theorem raced_cleanup_leaks : Established (World.bare []).systemd (underWay []) ∧ racedCleanup.finished = true ∧
    ¬ NoLeak (World.bare []).systemd racedCleanup.shared := by
  refine ⟨established_beginGeneration (g := randomHexId fun _ => 0) (by decide), by decide, fun h => ?_⟩
  obtain ⟨x, hx, hv⟩ : ∃ x ∈ racedCleanup.shared.history.sets,
      x.2["WAYLAND_DISPLAY".toList]? = some "wayland-1".toList := by decide
  have hcur : racedCleanup.shared.world.disk.current = none := by decide
  rcases h x hx _ _ hv ⟨by decide, by decide⟩ with hnone | ⟨g, hg, _⟩
  · exact absurd hnone (by decide +kernel)
  · exact absurd (hcur.symm.trans hg) nofun

/-! ## The watcher and the other exporters -/

/-- The value of `k` in the newest set of a process other than the first. -/
def newestExport (sets : List (Nat × Env)) (k : Str) : Option Str :=
  sets.findSome? fun x => if x.1 = 0 then none else x.2[k]?

/-- Where the first process is the watcher: what the others have exported is bound as the last of them
set it. -/
def NewestExports (s : Run) : Prop :=
  ∀ k v : Str, newestExport s.history.sets k = some v → s.world.systemd k = some v

/-- The bindings that an event puts into systemd's environment. -/
def eventPuts (may : Prim → Bool) (c : Pool cmds (Except Error Unit) Run) (e : Event Choice Kill) : Env :=
  match c.next e.proc, e with
  | some o, .run _ x => Cmd.puts may x.faults o
  | some o, .kill _ x => if x.calls = 0 then ∅ else Cmd.puts may x.choice.faults o
  | none, _ => ∅

/-- What the watcher writes over the export of another process is what is bound already. -/
def WatcherCurrent (may : Prim → Bool) (c : Pool cmds (Except Error Unit) Run) (e : Event Choice Kill) : Prop :=
  e.proc = 0 → ∀ k v : Str, (eventPuts may c e)[k]? = some v →
    newestExport c.shared.history.sets k ≠ none → c.shared.world.systemd k = some v

section
variable {may : Prim → Bool} {oracle : Oracle} {w t : World} {s : Run}

theorem setSystemdVars_first (may : Prim → Bool) (vars : Env) :
    ∃ k, setSystemdVars vars = Prog.op (S := prims) (.setEnvironment (assignments vars)) k ∧
    ∀ r w, Prog.wpc (S := prims) (handle may) (fun t => t.systemd = w.systemd) (fun _ _ => True) (k r) w := by
  unfold setSystemdVars
  simp only [Prog.ebind_eq]
  refine ⟨_, rfl, fun r w => ?_⟩
  cases r with
  | error _ => exact ⟨rfl, trivial⟩
  | ok _ =>
    refine Prog.wpc_ebind ⟨rfl, Prog.wpc_ebind (wpc_look .isDbusBroker rfl ⟨rfl, fun _ => rfl⟩ ?_ trivial)⟩
    dsimp only
    split
    · exact ⟨rfl, trivial⟩
    · exact wpc_orFail (.updateActivationEnvironment _) rfl (fun _ => ⟨rfl, trivial⟩) fun p _ => ⟨rfl, trivial⟩

theorem handle_setEnvironment {vars : Env} (h : KeptNames vars) (fs : List Fault) (k : Str) :
    (handle may fs.headI (.setEnvironment (assignments vars)) w).2.systemd k =
      (appliedVars may fs vars)[k]?.or (w.systemd k) := by
  cases hr : Prim.refused (.setEnvironment (assignments vars)) with
  | true => simp [handle, appliedVars, hr, Prim.effectUpTo]
  | false =>
    have hn := (not_refused_iff h).1 hr
    cases hf : may (.setEnvironment (assignments vars)) && fs.headI.fails with
    | true =>
      have := merge_filter (e := w.systemd) h hn fs.headI.reaches k
      simpa [handle, appliedVars, hr, Prim.effectUpTo, Prim.fallible, hf] using this
    | false =>
      simpa [handle, appliedVars, hr, Prim.effect, Prim.fallible, hf] using merge_assignments h hn k

/-- What a set leaves in systemd's environment, also when it is killed after its first call. -/
theorem setSystemdVars_puts {vars : Env} (h : KeptNames vars) (fs : List Fault) (k : Str) :
    (runIo may (setSystemdVars vars) fs w).2.systemd k = (appliedVars may fs vars)[k]?.or (w.systemd k) ∧
      ∀ n ≠ 0, (stopIo may n (setSystemdVars vars) fs w).systemd k =
        (appliedVars may fs vars)[k]?.or (w.systemd k) := by
  obtain ⟨rest, he, hrest⟩ := setSystemdVars_first may vars
  rw [← handle_setEnvironment h, he]
  constructor
  · exact congrArg (fun e : ActEnv => e k) (Prog.run_of_wpc fs.tail (hrest _ _)).1
  · intro n hn
    obtain ⟨n, rfl⟩ := Nat.exists_eq_succ_of_ne_zero hn
    exact congrArg (fun e : ActEnv => e k) (Prog.stop_of_wpc n fs.tail (hrest _ _))

/-- What a step of an exporter leaves in systemd's environment. -/
theorem exporter_puts {own : Set Str} {c : Cmd} (hc : Allowed false own c) (fs : List Fault) (k : Str) :
    (runIo may (c.io oracle) fs w).2.systemd k = (c.puts may fs)[k]?.or (w.systemd k) ∧
      ∀ n ≠ 0, (stopIo may n (c.io oracle) fs w).systemd k = (c.puts may fs)[k]?.or (w.systemd k) := by
  by_cases hset : ∃ vars, c = .setSystemdVars vars
  · obtain ⟨vars, rfl⟩ := hset
    exact setSystemdVars_puts (fun k v hv => (hc k v hv).1) fs k
  · -- every other step leaves the environment alone
    have hnone : c.puts may fs = ∅ := by
      cases c <;> first | rfl | exact absurd ⟨_, rfl⟩ hset
    have hsame : Prog.wpc (S := prims) (handle may) (fun t => t.systemd = w.systemd) (fun _ _ => True)
        (c.io oracle) w := by
      by_cases hq : Quiet c
      · exact Prog.wpc_mono (fun _ ht => ht.systemd) (fun _ _ _ _ => trivial) (quiet_step oracle hq)
      · cases c with
        | appendCleanup names =>
          refine Prog.wpc_mono ?_ (fun _ _ _ _ => trivial) (appendCleanup_spec names)
          rintro t (rfl | ⟨g, _, rfl⟩) <;> rfl
        | setSystemdVars vars => exact absurd ⟨_, rfl⟩ hset
        | unsetSystemdVars names => exact absurd hc.1 nofun
        | _ => exact absurd hc hq
    rw [hnone]
    simp only [ExtTreeMap.getElem?_empty, Option.none_or]
    exact ⟨congrArg (fun e : ActEnv => e k) (runIo_spec may fs hsame).1,
      fun n _ => congrArg (fun e : ActEnv => e k) (stopIo_spec may n fs hsame)⟩

theorem newestExport_note {i : Nat} {fs : List Fault} {c : Cmd} {ok : Bool} {k : Str} :
    newestExport (s.history.note may i fs c ok).sets k =
      if i = 0 then newestExport s.history.sets k
      else (c.puts may fs)[k]?.or (newestExport s.history.sets k) := by
  cases c with
  | setSystemdVars vars =>
    unfold newestExport
    rw [sets_note, List.findSome?_cons]
    by_cases hi : i = 0
    · simp [hi]
    · simp only [if_neg hi]
      cases ((Cmd.setSystemdVars vars).puts may fs)[k]? <;> rfl
  | _ => simp [Cmd.puts, History.note]

def AllDisciplined (c : Pool cmds (Except Error Unit) Run) : Prop :=
  Machine.Local (fun _ => True) (fun _ p _ => ∃ own, Disciplined false own p) c

/-- One event: its bindings go into the environment, and on record unless the watcher puts them. -/
theorem event_exports (may : Prim → Bool) {c : Pool cmds (Except Error Unit) Run} (hc : AllDisciplined c)
    (e : Event Choice Kill)
    (k : Str) :
    ((session may).event c e).shared.world.systemd k = (eventPuts may c e)[k]?.or (c.shared.world.systemd k) ∧
      newestExport ((session may).event c e).shared.history.sets k =
        if e.proc = 0 then newestExport c.shared.history.sets k
        else (eventPuts may c e)[k]?.or (newestExport c.shared.history.sets k) := by
  cases hn : c.next e.proc with
  | none =>
    rw [Machine.event_of_next_none hn]
    simp [eventPuts, hn]
  | some o =>
    obtain ⟨rest, hp⟩ := Pool.next_eq_some.1 hn
    obtain ⟨own, hallow, _⟩ := hc.2 _ _ hp
    cases e with
    | run i x =>
      rw [Machine.event_run (i := i) hp rfl]
      have he : eventPuts may c (.run i x) = Cmd.puts may x.faults o := by simp [eventPuts, hn]
      rw [he]
      exact ⟨(exporter_puts hallow x.faults k).1, newestExport_note⟩
    | kill i x =>
      rw [Machine.event_kill (i := i) hp]
      by_cases hcalls : x.calls = 0
      · have he : eventPuts may c (.kill i x) = ∅ := by simp [eventPuts, hn, hcalls]
        rw [kill_unmoved hcalls, he]
        simp
      · have he : eventPuts may c (.kill i x) = Cmd.puts may x.choice.faults o := by simp [eventPuts, hn, hcalls]
        rw [kill_moved hcalls, he]
        exact ⟨(exporter_puts hallow x.choice.faults k).2 _ hcalls, newestExport_note⟩

theorem reports_runIo {c : Cmd} {fs : List Fault} : c.Reports (runIo may (c.io oracle) fs w).1 := by
  cases c with
  | systemdVars => exact (runIo_spec may fs (quiet_step oracle (c := .systemdVars) trivial)).2.reports
  | _ => trivial

theorem allDisciplined_event {c : Pool cmds (Except Error Unit) Run} (hc : AllDisciplined c) (e : Event Choice Kill) :
    AllDisciplined ((session may).event c e) := by
  refine Machine.step_local ?_ ?_ hc
  · intro i x o k r s' he hp hs
    obtain ⟨rfl, rfl⟩ := Prod.mk.inj (Option.some.inj hs)
    obtain ⟨own, _, hk⟩ := hc.2 i _ hp
    exact ⟨trivial, ⟨_, hk _ reports_runIo⟩, fun j q _ hq => hc.2 j q hq⟩
  · exact fun i x o k he hp => ⟨trivial, fun j q _ hq => hc.2 j q hq⟩

theorem newestExports_event {c : Pool cmds (Except Error Unit) Run} {e : Event Choice Kill}
    (hc : AllDisciplined c) (hn : NewestExports c.shared) :
    NewestExports ((session may).event c e).shared ↔ WatcherCurrent may c e := by
  have hevent := event_exports may hc e
  by_cases h0 : e.proc = 0
  · -- the watcher: its bindings have to be those of the newest exports
    have hput : NewestExports ((session may).event c e).shared ↔ ∀ k v : Str,
        newestExport c.shared.history.sets k = some v →
          (eventPuts may c e)[k]?.or (c.shared.world.systemd k) = some v := by
      refine forall₂_congr fun k v => ?_
      rw [(hevent k).1, (hevent k).2, if_pos h0]
    rw [hput]
    constructor
    · intro h _ k v hk hne
      obtain ⟨u, hu⟩ := Option.ne_none_iff_exists'.1 hne
      have huv := h k u hu
      rw [hk, Option.some_or] at huv
      exact (hn k u hu).trans huv.symm
    · intro h k v hv
      cases hk : (eventPuts may c e)[k]? with
      | none => exact hn k v hv
      | some u =>
        have hbound := h h0 k u hk (by rw [hv]; nofun)
        exact hbound.symm.trans (hn k v hv)
  · -- another process: what it puts is the newest export
    refine ⟨fun _ h => absurd h h0, fun _ k v hv => ?_⟩
    rw [(hevent k).2, if_neg h0] at hv
    rw [(hevent k).1]
    cases hk : (eventPuts may c e)[k]? with
    | none => rw [hk] at hv; exact hn k v hv
    | some u => rw [hk] at hv; exact hv

/-- A process that runs `finalize`. -/
abbrev finalizing (x : Env × List Str) : Task Unit := finalize x.1 x.2

/-- **The watcher and the newest exports.** What `finalize` processes export is bound as the last of
them set it, in every state of a run, exactly when the watcher never writes anything else over it. -/
theorem newest_exports_iff (idUnitString waitVarnames : Str) (polls : Option Nat → Nat) (xs : List (Env × List Str))
    (es : List (Event Choice Kill)) :
    let ps := readinessWatch idUnitString waitVarnames polls :: xs.map finalizing
    (∀ m, NewestExports (runTasks may (es.take m) w ps).shared) ↔
      (session may).Along (WatcherCurrent may) es ⟨Run.start w, ps.map some⟩ := by
  intro ps
  refine Machine.along_iff (M := session may) (I := AllDisciplined) (P := fun c => NewestExports c.shared)
    (G := WatcherCurrent may) (fun c e hc => allDisciplined_event hc e) (fun c e hc hn => newestExports_event hc hn)
    es ?_ fun k v h => absurd (show (none : Option Str) = some v from h) nofun
  refine Machine.local_start trivial fun i p hp => ⟨∅, ?_⟩
  rcases List.mem_cons.1 (List.mem_of_getElem? hp) with rfl | hp
  · exact disciplined_readinessWatch idUnitString waitVarnames polls
  · obtain ⟨x, _, rfl⟩ := List.mem_map.1 hp
    exact disciplined_finalize x.1 x.2

end

/-- The watcher reads `wayland-1`, a second `finalize` sets `wayland-2`, the watcher sets what it has
read. -/
def racedExport : Pool cmds (Except Error Unit) Run :=
  runTasks (fun _ => false) (turns [0, 0, 1, 1, 0, 0, 2, 2, 0, 0, 0, 0, 1, 1, 2, 2]) (underWay [])
    [readinessWatch "sway".toList [] fun _ => 3,
      finalizing (ExtTreeMap.ofList [("WAYLAND_DISPLAY".toList, "wayland-1".toList)], []),
      finalizing (ExtTreeMap.ofList [("WAYLAND_DISPLAY".toList, "wayland-2".toList)], [])]

theorem raced_export_undone : racedExport.finished = true ∧ ¬ NewestExports racedExport.shared := by
  refine ⟨by decide +kernel, fun h => ?_⟩
  have hnew : newestExport racedExport.shared.history.sets "WAYLAND_DISPLAY".toList = some "wayland-2".toList := by
    decide +kernel
  exact absurd (h _ _ hnew) (by decide +kernel)

end Wsmr
