import Wsmr.Session.Conduct
import Wsmr.Session.Recovery

/-!
# A session leaves no trace

From `begin_generation` to `cleanup-env` the session state accounts for everything the session's
processes change (`Active`), whatever step they are stopped or killed in and in whatever order the
exporters take their steps. So `end_generation`, which settles the accounts, restores the environment
that `prepare-env` found.
-/

namespace Wsmr

open Text Std Effects

/-- A generation is on record and the accounts of `base` are in order. -/
structure Active (base : ActEnv) (w : World) : Prop where
  accounts : Accounts base w
  generation : ∃ g, w.disk.current = some g ∧ TagOk g

/-- Setting `k` is accounted for. -/
def Owned (w : World) : Set Str := {k | k ∈ neverCleanup ∨ w.disk.snapshot k ≠ none ∨ k ∈ w.disk.owed}

section
variable {may : Prim → Bool} {oracle : Oracle} {base : ActEnv} {w t : World}

/-! ## One step -/

theorem Active.same (h : Active base w) (hs : t.systemd = w.systemd) (hd : SameState w.disk t.disk) :
    Active base t ∧ Owned t = Owned w := by
  refine ⟨⟨?_, hd.current ▸ h.generation⟩, by unfold Owned; rw [hd.snapshot, hd.owed]⟩
  obtain ⟨L, hb, hL⟩ := h.accounts
  exact ⟨L, hb, hd.snapshot.trans hL.snapshot, hd.owed.trans hL.owed, by rw [hs]; exact hL.live, hL.exempt,
    hL.complete⟩

theorem Active.record (h : Active base w) {g : Str} (hg : w.disk.current = some g) (names : List Str) :
    Active base (w.record g names) ∧ Owned w ⊆ Owned (w.record g names) ∧
      ∀ k ∈ names, keepName k = true → k ∈ Owned (w.record g names) := by
  obtain ⟨g', hg', htag⟩ := h.generation
  obtain rfl := Option.some.inj (hg.symm.trans hg')
  have hlisted : ∀ k, (w.record g names).disk.Listed k ↔ w.disk.Listed k ∨ (k ∈ names ∧ keepName k = true) :=
    fun k => listed_record htag hg
  refine ⟨⟨h.accounts.record htag hg, g, ?_, htag⟩, fun k hk => ?_, fun k hk hkeep => ?_⟩
  · rw [Disk.current, disk_record (by decide)]; exact hg
  · refine hk.imp_right fun hk => ?_
    rw [snapshot_record]
    exact hk.imp_right fun ho => ⟨ho.1.imp_left fun hl => (hlisted k).2 (Or.inl hl), ho.2⟩
  · by_cases hn : k ∈ neverCleanup
    · exact Or.inl hn
    · exact Or.inr (Or.inr ⟨Or.inl ((hlisted k).2 (Or.inr ⟨hk, hkeep⟩)), hn⟩)

theorem keptNames_kept (env : Env) : KeptNames env.kept := fun _ _ => keepName_of_kept

theorem wpc_removeFile {f : File} {C : World → Prop} {Q : Except Error Unit → World → Prop} (hc : C w)
    (hrm : C { w with disk := w.disk.remove f }) (hok : Q (.ok ()) w)
    (hok' : Q (.ok ()) { w with disk := w.disk.remove f }) :
    Prog.wpc (S := prims) (handle may) C Q (removeFile f) w :=
  Prog.wpc_bind (wpc_perform (.remove f) hc (fun _ => ⟨hrm, hrm, hok'⟩) fun _ _ => ⟨hc, hc, hok⟩)

/-- What an allowed step preserves, at any point of it, and what it adds when it succeeds. -/
theorem allowed_step (oracle : Oracle) (h : Active base w) : ∀ {c : Cmd}, Allowed true (Owned w) c →
    Prog.wpc (S := prims) (handle may) (fun t => Active base t ∧ Owned w ⊆ Owned t)
      (fun r t => c.Reports r ∧ ((∃ a, r = .ok a) → c.records ⊆ Owned t)) (c.io oracle) w := by
  have hstill : Active base w ∧ Owned w ⊆ Owned w := ⟨h, subset_rfl⟩
  have hsame : ∀ t : World, t.systemd = w.systemd → SameState w.disk t.disk →
      Active base t ∧ Owned w ⊆ Owned t := fun t hs hd =>
    ⟨(h.same hs hd).1, (h.same hs hd).2.symm.subset⟩
  have hdisk : ∀ {t : World}, t.disk = w.disk → Accounts base t → Active base t ∧ Owned w ⊆ Owned t :=
    fun hd ha => ⟨⟨ha, hd ▸ h.generation⟩, by unfold Owned; rw [hd]⟩
  intro c hc
  cases c with
  | beginGeneration | endGeneration => exact hc.elim
  | systemdVars =>
    refine Prog.wpc_mono (fun _ ht => ht ▸ hstill) (fun r _ _ hr => ⟨?_, fun _ => Set.empty_subset _⟩)
      systemdVars_spec
    cases r with
    | ok env => exact hr env rfl ▸ keptNames_kept _
    | error _ => trivial
  | appendCleanup names =>
    refine Prog.wpc_mono ?_ ?_ (appendCleanup_spec names)
    · rintro t (rfl | ⟨g, hg, rfl⟩)
      · exact hstill
      · exact ⟨(h.record hg names).1, (h.record hg names).2.1⟩
    · rintro r t _ hr
      refine ⟨trivial, ?_⟩
      rintro ⟨_, rfl⟩ k ⟨hk, hkeep⟩
      obtain ⟨g, hg, ⟨rfl, hm⟩ | rfl⟩ := hr rfl
      · -- the names were all there already
        by_cases hn : k ∈ neverCleanup
        · exact Or.inl hn
        · refine Or.inr (Or.inr ⟨Or.inl ⟨g, hg, ?_⟩, hn⟩)
          rw [← hm]
          exact mem_insertNames.2 (Or.inr ⟨rfl, hk, hkeep⟩)
      · exact (h.record hg names).2.2 k hk hkeep
  | setSystemdVars vars =>
    refine Prog.wpc_mono (fun t hw => ?_) (fun _ _ _ _ => ⟨trivial, fun _ => Set.empty_subset _⟩)
      (setSystemdVars_spec fun k v hv => (hc k v hv).1)
    exact hdisk hw.disk (h.accounts.wrote hw fun k v hv => (hc k v hv).2.elim Or.inl id)
  | unsetSystemdVars names =>
    refine Prog.wpc_mono (fun t he => ?_) (fun _ _ _ _ => ⟨trivial, fun _ => Set.empty_subset _⟩)
      (unsetSystemdVars_spec names)
    exact hdisk he.disk (h.accounts.erased he hc.2)
  | readFile f =>
    exact wpc_readFile hstill ⟨trivial, fun _ => Set.empty_subset _⟩ fun _ => ⟨trivial, fun _ => Set.empty_subset _⟩
  | writeFile f text =>
    refine wpc_writeFile hstill ⟨hsame _ rfl fun g hg => Disk.write_ne ?_, trivial, fun _ => Set.empty_subset _⟩
      fun _ => ⟨trivial, fun _ => Set.empty_subset _⟩
    rintro rfl
    exact absurd (hc.symm.trans hg) nofun
  | removeFile f =>
    refine wpc_removeFile hstill (hsame _ rfl fun g hg => Disk.remove_ne ?_) ⟨trivial, fun _ => Set.empty_subset _⟩
      ⟨trivial, fun _ => Set.empty_subset _⟩
    rintro rfl
    exact absurd (hc.symm.trans hg) nofun
  | ask q => exact ⟨hstill, trivial, fun _ => Set.empty_subset _⟩

/-! ## Many processes -/

/-- A process may go on: it sets only what is accounted for. -/
def MayProceed (s : Run) (p : Prog cmds (Except Error Unit)) : Prop :=
  ∃ recorded, recorded ⊆ Owned s.world ∧ Disciplined true recorded p

theorem MayProceed.grow {s s' : Run} {p : Prog cmds (Except Error Unit)} (h : MayProceed s p)
    (ho : Owned s.world ⊆ Owned s'.world) : MayProceed s' p :=
  h.imp fun _ h => ⟨h.1.trans ho, h.2⟩

theorem MayProceed.step {s s' : Run} {c : Cmd} {k : Except Error c.Value → Prog cmds (Except Error Unit)}
    {i : Nat} {x : Choice} {r : Except Error c.Value} (ha : Active base s.world)
    (hp : MayProceed s (.op c k)) (hs : (session may).step i x c s = some (r, s')) :
    Active base s'.world ∧ Owned s.world ⊆ Owned s'.world ∧ MayProceed s' (k r) := by
  obtain ⟨own, hown, hallow, hk⟩ := hp
  obtain ⟨rfl, rfl⟩ := Prod.mk.inj (Option.some.inj hs)
  obtain ⟨⟨ha', hsub⟩, hrep, hadd⟩ := runIo_spec may x.faults (allowed_step x.oracle ha (hallow.mono hown))
  refine ⟨ha', hsub, _, ?_, hk _ hrep⟩
  split
  · rename_i a hr
    exact hadd ⟨a, hr⟩
  · exact Set.empty_subset _

theorem MayProceed.kill (may : Prim → Bool) {s : Run} {c : Cmd}
    {k : Except Error c.Value → Prog cmds (Except Error Unit)}
    {i : Nat} {x : Kill} (ha : Active base s.world) (hp : MayProceed s (.op c k)) :
    Active base ((session may).kill i x c s).world ∧
      Owned s.world ⊆ Owned ((session may).kill i x c s).world := by
  obtain ⟨own, hown, hallow, _⟩ := hp
  exact stopIo_spec may x.calls x.choice.faults (allowed_step x.choice.oracle ha (hallow.mono hown))

/-- **The exporters of a session keep its accounts**, whatever their number, order and fate. -/
theorem active_runTasks {w : World} (h : Active base w) (ps : List (Task Unit))
    (hps : ∀ p ∈ ps, Disciplined (α := Except Error Unit) true ∅ p) (es : List (Event Choice Kill)) :
    Active base (runTasks may es w ps).shared.world := by
  have hstart : Machine.Local (fun s => Active base s.world) (fun _ p s => MayProceed s p)
      ⟨Run.start w, ps.map some⟩ :=
    Machine.local_start h fun i p hp => ⟨∅, Set.empty_subset _, hps p (List.mem_of_getElem? hp)⟩
  refine (Machine.exec_induct (M := session may) (G := fun _ _ => True) (fun c e hc _ => ?_) es hstart
    (Machine.along_true es _)).1
  refine Machine.step_local ?_ ?_ hc
  · intro i x o k r s _ hp hs
    obtain ⟨ha, hsub, hmay⟩ := (hc.2 i _ hp).step hc.1 hs
    exact ⟨ha, hmay, fun j q _ hq => (hc.2 j q hq).grow hsub⟩
  · intro i x o k _ hp
    obtain ⟨ha, hsub⟩ := (hc.2 i _ hp).kill may (i := i) (x := x) hc.1
    exact ⟨ha, fun j q _ hq => (hc.2 j q hq).grow hsub⟩

/-! ## `prepare-env` -/

/-- Neither the environment nor the session state has changed. -/
structure Untouched (w t : World) : Prop where
  systemd : t.systemd = w.systemd
  disk : SameState w.disk t.disk

theorem untouched_refl : Untouched w w := ⟨rfl, fun _ _ => rfl⟩

theorem Untouched.trans {u v t : World} (h : Untouched u v) (h' : Untouched v t) : Untouched u t :=
  ⟨h'.systemd.trans h.systemd, fun f hf => (h'.disk f hf).trans (h.disk f hf)⟩

theorem Untouched.recovered (h : Untouched w t) : recovered t = recovered w := by
  simp only [Wsmr.recovered, settled, h.disk.hasState, h.disk.snapshot, h.disk.owed, h.systemd]

/-- A quiet step touches nothing, and reading the environment shows it as it is. -/
theorem quiet_step (oracle : Oracle) : ∀ {c : Cmd}, Quiet c → Prog.wpc (S := prims) (handle may) (Untouched w)
    (fun r _ => c.Sees w.systemd.vars.kept r) (c.io oracle) w := by
  intro c hc
  cases c with
  | systemdVars =>
    refine Prog.wpc_mono (fun _ ht => ht ▸ untouched_refl) (fun r _ _ hr => ?_) systemdVars_spec
    cases r with
    | ok env => exact hr env rfl
    | error _ => trivial
  | readFile f => exact wpc_readFile untouched_refl trivial fun _ => trivial
  | writeFile f text =>
    refine wpc_writeFile untouched_refl ⟨⟨rfl, fun g hg => Disk.write_ne ?_⟩, trivial⟩ fun _ => trivial
    rintro rfl
    exact absurd (hc.symm.trans hg) nofun
  | removeFile f =>
    refine wpc_removeFile untouched_refl ⟨rfl, fun g hg => Disk.remove_ne ?_⟩ trivial trivial
    rintro rfl
    exact absurd (hc.symm.trans hg) nofun
  | ask q => exact ⟨untouched_refl, trivial⟩
  | beginGeneration | appendCleanup | setSystemdVars | unsetSystemdVars | endGeneration => exact hc.elim

/-- What an earlier session left on disk does not say anything new about the environment. -/
def NothingToUndo (w : World) : Prop := ∀ k ∉ neverCleanup, recovered w k = w.systemd k

theorem nothingToUndo_of_noState (h : w.disk.HasState = false) : NothingToUndo w := fun k _ => by
  simp [recovered, h]

/-- A generation that begins with the environment as its snapshot has its accounts in order. -/
theorem beginGeneration_active (hw : NothingToUndo w) (buf : Fin 8 → UInt8) :
    Prog.wpc (S := prims) (handle may) (fun _ => True) (fun r t => ∀ id, r = .ok id → Active w.systemd t)
      (beginGeneration buf w.systemd.vars.kept) w := by
  refine Prog.wpc_mono (fun _ _ => trivial) (fun r t _ hr id h => ?_) (beginGeneration_spec buf _)
  obtain ⟨rfl, t', hrest, rfl⟩ := hr id h
  refine ⟨accounts_of_snapshot (snapshot_of_saved_kept (by simp [Disk.established, Disk.write])) fun k hk => ?_,
    _, current_of_minted (by simp [Disk.established, Disk.write]), tagOk_randomHexId buf⟩
  exact (hrest.systemd k).trans (hw k hk)

/-- How far `prepare-env` has got: it has only looked, it has stopped as its `begin_generation` has
failed, or it has begun. -/
inductive Preparing (may : Prim → Bool) (w : World) (s : Run) (p : Prog cmds (Except Error Unit)) : Prop where
  | looking (hb : s.history.begun = false) (hu : Untouched w s.world) (hp : Opening w.systemd.vars.kept p)
  | failed {u : World} {buf : Fin 8 → UInt8} (hb : s.history.begun = false) (hu : Untouched w u)
      (hw : Beginning may (randomHexId buf) w.systemd.vars.kept u s.world) (hp : ∃ a, p = .ret a)
  | begun (hb : s.history.begun = true) (hp : MayProceed s p)

/-- Only `begin_generation` changes what the history says about it. -/
theorem note_begun {u : Bool} {own : Set Str} {h : History} {i : Nat} {fs : List Fault} {c : Cmd} {ok : Bool}
    (hc : Allowed u own c) : (h.note may i fs c ok).begun = h.begun := by
  cases c <;> first | rfl | exact hc.elim

theorem preparing_quiet {s s' : Run} {c : Cmd} {k : Except Error c.Value → Prog cmds (Except Error Unit)}
    {i : Nat} {x : Choice} {r : Except Error c.Value} (hc : Quiet c) (hb : s.history.begun = false)
    (hu : Untouched w s.world) (hp : Opening w.systemd.vars.kept (.op c k))
    (hs : (session may).step i x c s = some (r, s')) : Preparing may w s' (k r) := by
  obtain ⟨rfl, rfl⟩ := Prod.mk.inj (Option.some.inj hs)
  obtain ⟨hu', hsee⟩ := runIo_spec may x.faults (quiet_step x.oracle (w := s.world) hc)
  refine .looking ((note_begun (hc.allowed : Allowed true ∅ c)).trans hb) (hu.trans hu') ?_
  rw [hu.systemd] at hsee
  exact (opening_quiet_op hc).1 hp _ hsee

theorem preparing_begin {s s' : Run} {buf : Fin 8 → UInt8} {k : Except Error Str → Prog cmds (Except Error Unit)}
    {i : Nat} {x : Choice} {r : Except Error Str} (hw : NothingToUndo w) (hb : s.history.begun = false)
    (hu : Untouched w s.world) (hok : ∀ id, Disciplined true ∅ (k (.ok id)))
    (herr : ∀ e, ∃ a, k (.error e) = .ret a)
    (hs : (session may).step i x (.beginGeneration buf w.systemd.vars.kept) s = some (r, s')) :
    (s'.history.begun = true → Active w.systemd s'.world) ∧ Preparing may w s' (k r) := by
  have hw' : NothingToUndo s.world := fun j hj => by rw [hu.recovered, hu.systemd]; exact hw j hj
  have hact := (runIo_spec may x.faults (beginGeneration_active hw' buf)).2
  rw [hu.systemd] at hact
  have hleft := (runIo_spec may x.faults (beginGeneration_spec (w := s.world) buf w.systemd.vars.kept)).1
  obtain ⟨rfl, rfl⟩ := Prod.mk.inj (Option.some.inj hs)
  show (_ → Active _ (runIo may (beginGeneration buf _) x.faults s.world).2) ∧
    Preparing may w _ (k (runIo may (beginGeneration buf _) x.faults s.world).1)
  dsimp only [Cmd.io]
  generalize runIo may (beginGeneration buf w.systemd.vars.kept) x.faults s.world = res at hact hleft
  obtain ⟨r | id, t⟩ := res
  · have hb' : (s.history.note may i x.faults (.beginGeneration buf w.systemd.vars.kept) false).begun = false := by
      simp [History.note, hb]
    exact ⟨fun h => absurd (hb'.symm.trans h) nofun, .failed hb' hu hleft (herr r)⟩
  · have ha : Active w.systemd t := hact id rfl
    exact ⟨fun _ => ha, .begun (by simp [History.note]) ⟨∅, Set.empty_subset _, hok id⟩⟩

theorem preparing_step {s s' : Run} {c : Cmd} {k : Except Error c.Value → Prog cmds (Except Error Unit)}
    {i : Nat} {x : Choice} {r : Except Error c.Value} (hw : NothingToUndo w)
    (ha : s.history.begun = true → Active w.systemd s.world) (hp : Preparing may w s (.op c k))
    (hs : (session may).step i x c s = some (r, s')) :
    (s'.history.begun = true → Active w.systemd s'.world) ∧ Preparing may w s' (k r) := by
  have hnote : ∀ own, Allowed true own c → s'.history.begun = s.history.begun := fun own hc => by
    obtain ⟨-, rfl⟩ := Prod.mk.inj (Option.some.inj hs)
    exact note_begun hc
  cases hp with
  | failed hb _ _ hret => exact absurd hret (by simp)
  | begun hb hm =>
    obtain ⟨ha', _, hm'⟩ := hm.step (ha hb) hs
    obtain ⟨own, _, hallow, _⟩ := hm
    exact ⟨fun _ => ha', .begun ((hnote own hallow).trans hb) hm'⟩
  | looking hb hu ho =>
    by_cases hc : Quiet c
    · have hb' := (hnote ∅ hc.allowed).trans hb
      exact ⟨fun h => absurd (hb'.symm.trans h) nofun, preparing_quiet hc hb hu ho hs⟩
    · cases c with
      | beginGeneration buf pre =>
        obtain ⟨rfl, hok, herr⟩ := ho
        exact preparing_begin hw hb hu hok herr hs
      | _ => exact absurd ho.1 hc

theorem preparing_kill {s : Run} {c : Cmd} {k : Except Error c.Value → Prog cmds (Except Error Unit)}
    {i : Nat} {x : Kill} (ha : s.history.begun = true → Active w.systemd s.world)
    (hp : Preparing may w s (.op c k)) :
    ((session may).kill i x c s).history.begun = true → Active w.systemd ((session may).kill i x c s).world := by
  have hnote : ((session may).kill i x c s).history.begun = s.history.begun := by
    show (if x.calls = 0 then s.history else s.history.note may i x.choice.faults c false).begun = _
    split
    · rfl
    · cases c <;> simp [History.note]
  intro h
  rw [hnote] at h
  cases hp with
  | looking hb _ _ | failed hb _ _ _ => exact absurd (hb.symm.trans h) nofun
  | begun _ hm => exact (hm.kill may (ha h)).1

/-- `prepare-env` along its run. -/
theorem local_prepareEnv (hw : NothingToUndo w) (comp : CompGlobals) (id mark : Fin 8 → UInt8)
    (es : List (Event Choice Kill)) :
    Machine.Local (fun s : Run => s.history.begun = true → Active w.systemd s.world)
      (fun i p s => i = 0 ∧ Preparing may w s p) (runTasks may es w [prepareEnv comp id mark]) := by
  have hstart : Machine.Local (fun s : Run => s.history.begun = true → Active w.systemd s.world)
      (fun i p s => i = 0 ∧ Preparing may w s p) ⟨Run.start w, [prepareEnv comp id mark].map some⟩ := by
    refine Machine.local_start (fun h => absurd h nofun) fun i p hp => ?_
    obtain ⟨rfl, rfl⟩ : i = 0 ∧ p = prepareEnv comp id mark := by
      cases i with
      | zero => exact ⟨rfl, (Option.some.inj hp).symm⟩
      | succ i => simp at hp
    exact ⟨rfl, .looking rfl untouched_refl (opening_prepareEnv (keptNames_kept _) comp id mark)⟩
  refine Machine.exec_induct (M := session may) (G := fun _ _ => True) (fun c e hc _ => ?_) es hstart
    (Machine.along_true es _)
  refine Machine.step_local ?_ ?_ hc
  · intro i x o k r s _ hp hs
    obtain ⟨hi, hprep⟩ := hc.2 i _ hp
    obtain ⟨ha, hprep'⟩ := preparing_step hw hc.1 hprep hs
    exact ⟨ha, ⟨hi, hprep'⟩, fun j q hj hq => absurd ((hc.2 j q hq).1.trans hi.symm) hj⟩
  · intro i x o k _ hp
    obtain ⟨hi, hprep⟩ := hc.2 i _ hp
    exact ⟨preparing_kill hc.1 hprep, fun j q hj hq => absurd ((hc.2 j q hq).1.trans hi.symm) hj⟩

/-- **`prepare-env` establishes the accounts** of the environment it found, wherever it is stopped
after its `begin_generation` has returned `Ok`. -/
theorem active_prepareEnv (hw : NothingToUndo w) (comp : CompGlobals) (id mark : Fin 8 → UInt8)
    (es : List (Event Choice Kill))
    (hb : (runTasks may es w [prepareEnv comp id mark]).shared.history.begun = true) :
    Active w.systemd (runTasks may es w [prepareEnv comp id mark]).shared.world :=
  (local_prepareEnv hw comp id mark es).1 hb

/-- Nothing has begun: the environment is as it was, and there is no session state. -/
structure Sessionless (w t : World) : Prop where
  systemd : t.systemd = w.systemd
  noState : t.disk.HasState = false

/-- A beginning that failed has written nothing, `generation` alone, or everything that is needed. -/
theorem Beginning.stopped {buf : Fin 8 → UInt8} {u : World} (hw : w.disk.HasState = false) (hu : Untouched w u)
    (h : Beginning may (randomHexId buf) w.systemd.vars.kept u t) :
    Sessionless w t ∨ Active w.systemd t ∨ t.disk.Midway := by
  have hst : u.disk.HasState = false := hu.disk.hasState.trans hw
  have hsaved : t.systemd = w.systemd → t.disk .generation = some (randomHexId buf ++ ['\n']) →
      t.disk .envPre = some (serializeEnv w.systemd.vars.kept .nul) → Active w.systemd t := fun hs hg hp =>
    ⟨accounts_of_snapshot (snapshot_of_saved_kept hp) fun k _ => by rw [hs], _, current_of_minted hg,
      tagOk_randomHexId buf⟩
  cases h with
  | restoring h =>
    cases h with
    | start h => exact Or.inl (h ▸ ⟨hu.systemd, hst⟩)
    | settling hst' _ => exact absurd (hst.symm.trans hst') nofun
    | clearing hst' _ _ => exact absurd (hst.symm.trans hst') nofun
  | establishing hr he =>
    obtain rfl := hr.noState hst
    cases he with
    | none h => exact Or.inl (h ▸ ⟨hu.systemd, hst⟩)
    | generation h =>
      have hnone := gone_of_noState (f := .envPre) hst rfl
      exact Or.inr (Or.inr (by simp [h, Disk.Midway, Disk.write, hnone]))
    | envPre h => exact Or.inr (Or.inl (hsaved (by rw [h]; exact hu.systemd) (by simp [h, Disk.write]) (by simp [h])))
    | all h =>
      exact Or.inr (Or.inl (hsaved (by rw [h]; exact hu.systemd) (by simp [h, Disk.established, Disk.write])
        (by simp [h, Disk.established, Disk.write])))

/-- Where `prepare-env` may be when it has stopped. -/
theorem prepareEnv_stopped (hw : w.disk.HasState = false) (comp : CompGlobals) (id mark : Fin 8 → UInt8)
    (es : List (Event Choice Kill)) (hstop : (runTasks may es w [prepareEnv comp id mark]).returned 0 = true ∨
      (runTasks may es w [prepareEnv comp id mark]).shared.history.begun = true) :
    Sessionless w (runTasks may es w [prepareEnv comp id mark]).shared.world ∨
      Active w.systemd (runTasks may es w [prepareEnv comp id mark]).shared.world ∨
      (runTasks may es w [prepareEnv comp id mark]).shared.world.disk.Midway := by
  have hlocal := @local_prepareEnv may w (nothingToUndo_of_noState hw) comp id mark es
  rcases hstop with hret | hb
  · obtain ⟨a, ha⟩ := Pool.returned_iff.1 hret
    obtain ⟨_, hprep⟩ := hlocal.2 0 _ ha
    cases hprep with
    | looking _ hu _ => exact Or.inl ⟨hu.systemd, hu.disk.hasState.trans hw⟩
    | failed _ hu hbegin _ => exact hbegin.stopped hw hu
    | begun hb _ => exact Or.inr (Or.inl (hlocal.1 hb))
  · exact Or.inr (Or.inl (hlocal.1 hb))

/-! ## Exporters without a session -/

theorem Disk.current_of_noState {d : Disk} (h : d.HasState = false) : d.current = none := by
  simp only [Disk.HasState, Bool.or_eq_false_iff, Option.isSome_eq_false_iff, Option.isNone_iff_eq_none] at h
  rw [Disk.current, h.1.1]
  rfl

/-- Without a generation on record, nothing is recorded, and a cautious process goes on as such. -/
theorem cautious_step (oracle : Oracle) (h : Sessionless w t) {c : Cmd}
    {k : Except Error c.Value → Prog cmds (Except Error Unit)} (hp : Cautious (.op c k)) :
    Prog.wpc (S := prims) (handle may) (Sessionless w) (fun r _ => Cautious (k r)) (c.io oracle) t := by
  by_cases hq : Quiet c
  · refine Prog.wpc_mono (fun u hu => ⟨hu.systemd.trans h.systemd, hu.disk.hasState.trans h.noState⟩)
      (fun r _ _ _ => (cautious_quiet_op hq).1 hp r) (quiet_step oracle hq)
  · cases c with
    | appendCleanup names =>
      have hnone := Disk.current_of_noState h.noState
      refine Prog.wpc_mono ?_ (fun r u _ hr => ?_) (appendCleanup_spec names)
      · rintro u (rfl | ⟨g, hg, _⟩)
        · exact h
        · exact absurd (hnone.symm.trans hg) nofun
      · cases r with
        | error e => exact hp e
        | ok a =>
          obtain ⟨g, hg, _⟩ := hr rfl
          exact absurd (hnone.symm.trans hg) nofun
    | _ => exact absurd hp.1 hq

/-- **Exporters that find no session** leave everything as it is. -/
theorem sessionless_runTasks (h : Sessionless w t) (xs : List Exporter) (es : List (Event Choice Kill)) :
    Sessionless w (runTasks may es t (xs.map Exporter.task)).shared.world := by
  have hstart : Machine.Local (fun s : Run => Sessionless w s.world) (fun _ p _ => Cautious p)
      ⟨Run.start t, (xs.map Exporter.task).map some⟩ :=
    Machine.local_start h fun i p hp => by
      obtain ⟨x, _, rfl⟩ := List.mem_map.1 (List.mem_of_getElem? hp)
      exact cautious_exporter x
  refine (Machine.exec_induct (M := session may) (G := fun _ _ => True) (fun c e hc _ => ?_) es hstart
    (Machine.along_true es _)).1
  refine Machine.step_local ?_ ?_ hc
  · intro i x o k r s _ hp hs
    obtain ⟨rfl, rfl⟩ := Prod.mk.inj (Option.some.inj hs)
    obtain ⟨hnone, hk⟩ := runIo_spec may x.faults (cautious_step x.oracle hc.1 (hc.2 i _ hp))
    exact ⟨hnone, hk, fun j q _ hq => hc.2 j q hq⟩
  · intro i x o k _ hp
    exact ⟨stopIo_spec may x.calls x.choice.faults (cautious_step x.choice.oracle hc.1 (hc.2 i _ hp)),
      fun j q _ hq => hc.2 j q hq⟩

theorem Sessionless.endGeneration (h : Sessionless w t) (fs : List Fault)
    (hok : (runIo may Wsmr.endGeneration fs t).1 = .ok ()) : (runIo may Wsmr.endGeneration fs t).2 = t := by
  have hr := (runIo_spec may fs (endGeneration_spec (w := t))).2
  rw [hok] at hr
  exact hr.noState h.noState

/-! ## Ending the session -/

theorem Active.hasState (h : Active base w) : w.disk.HasState = true := by
  obtain ⟨g, hg, _⟩ := h.generation
  cases hf : w.disk .generation with
  | none => simp [Disk.current, hf, generationOf] at hg
  | some _ => simp [Disk.HasState, hf]

/-- **`cleanup-env` restores the environment the session found.** -/
theorem Active.endGeneration (h : Active base w) (fs : List Fault)
    (hok : (runIo may endGeneration fs w).1 = .ok ()) :
    (∀ k, k ∉ neverCleanup ∨ base k ≠ none → (runIo may Wsmr.endGeneration fs w).2.systemd k = base k) ∧
      ∀ f, f.isState → Gone may (runIo may Wsmr.endGeneration fs w).2 f := by
  have hr := (runIo_spec may fs (endGeneration_spec (w := w))).2
  rw [hok] at hr
  exact ⟨fun k hk => (hr.settled h.hasState k).trans (h.accounts.settled (hk.imp_right Or.inl)), hr.gone⟩

end

/-- One session: `prepare-env` with its own course of events, then the exporters with theirs. -/
structure Session where
  comp : CompGlobals
  id : Fin 8 → UInt8
  mark : Fin 8 → UInt8
  preparing : List (Event Choice Kill)
  exporters : List Exporter
  running : List (Event Choice Kill)

namespace Session

variable (may : Prim → Bool) (S : Session) (w : World)

/-- `prepare-env` alone, from `w`. -/
def preparation : Pool cmds (Except Error Unit) Run := runTasks may S.preparing w [prepareEnv S.comp S.id S.mark]

def prepared : Run := (S.preparation may w).shared

/-- `prepare-env` has returned, also with an error, or was stopped after its `begin_generation` had
returned `Ok`. (It returns when its `begin_generation` returns an error.) -/
def Stopped : Prop := (S.preparation may w).returned 0 = true ∨ (S.prepared may w).history.begun = true

/-- Then the exporters. -/
def ran : World := (runTasks may S.running (S.prepared may w).world (S.exporters.map Exporter.task)).shared.world

variable {may S w}

theorem active_exported (h : Active w.systemd (S.prepared may w).world) : Active w.systemd (S.ran may w) := by
  refine active_runTasks h _ (fun p hp => ?_) S.running
  obtain ⟨x, _, rfl⟩ := List.mem_map.1 hp
  exact disciplined_exporter x

theorem active_ran (hw : NothingToUndo w) (hb : (S.prepared may w).history.begun = true) :
    Active w.systemd (S.ran may w) :=
  active_exported (active_prepareEnv hw S.comp S.id S.mark S.preparing hb)

/-- A session that has stopped with its snapshot on disk, or without a trace. -/
theorem ran_of_stopped (hw : w.disk.HasState = false) (hstop : S.Stopped may w)
    (hsaved : ¬ (S.prepared may w).world.disk.Midway) :
    Sessionless w (S.ran may w) ∨ Active w.systemd (S.ran may w) := by
  rcases prepareEnv_stopped hw S.comp S.id S.mark S.preparing hstop with h | h | h
  · exact Or.inl (sessionless_runTasks h S.exporters S.running)
  · exact Or.inr (active_exported h)
  · exact absurd h hsaved

end Session

/-- Surroundings in which every question is answered and the loader prints `dump` after its mark. -/
def plainOracle (dump : Str) : Oracle
  | .fgVtText => .ok "tty1\n".toList
  | .sessionByVt _ => .ok (some ("1".toList, "seat0".toList))
  | .sessionLeader _ => .ok 1
  | .unitsByPatterns _ _ => .ok []
  | .notifyAccess _ => .ok "all".toList
  | .timeoutStart _ => .ok 90000000
  | .loaderShell _ _ => .ok ⟨true, "exit status: 0".toList, randomHexId (fun _ => 0) ++ dump, []⟩
  | .startUnit _ | .execSystemdNotify _ => .ok ()

/-- A session of `sway` in which everything works, with these exporters. -/
def plainSession (dump : Str) (exporters : List Exporter) (running : List (Event Choice Kill)) : Session where
  comp := ⟨["sway".toList], "sway".toList, "sway".toList, "sway".toList, "sway".toList, ["sway".toList], none,
    none, [], false⟩
  id := fun _ => 0
  mark := fun _ => 0
  preparing := List.replicate 20 (.run 0 ⟨[], plainOracle dump⟩)
  exporters := exporters
  running := running

/-- **Session restoration.** From any environment without session state on disk: `prepare-env` runs
with any login environment and any loader result and stops by itself, with an error or without, or
anywhere after its `begin_generation` has returned; exporters take their steps in any order and stop
anywhere; and one `end_generation` returns `Ok`, its removals working. Unless `begin_generation` has
stopped between writing `generation` and writing `env_pre`, every name outside `NEVER_CLEANUP`, and
every name bound at the start, has its binding of the start, and the state files are gone. -/
theorem session_restoration (may mayEnd : Prim → Bool) (hrm : ∀ f, mayEnd (.remove f) = false) (S : Session)
    (w : World) (hw : w.disk.HasState = false) (hstop : S.Stopped may w)
    (hsaved : ¬ (S.prepared may w).world.disk.Midway) (fs : List Fault)
    (hok : (runIo mayEnd endGeneration fs (S.ran may w)).1 = .ok ()) :
    let t := (runIo mayEnd endGeneration fs (S.ran may w)).2
    (∀ k ∉ neverCleanup, t.systemd k = w.systemd k) ∧
      (∀ k ∈ neverCleanup, w.systemd k ≠ none → t.systemd k = w.systemd k) ∧
      t.disk .generation = none ∧ t.disk .envPre = none ∧ t.disk .cleanupList = none := by
  intro t
  rcases S.ran_of_stopped hw hstop hsaved with h | h
  · have ht : t = S.ran may w := h.endGeneration fs hok
    have hsys : ∀ k, t.systemd k = w.systemd k := fun k => by rw [ht, h.systemd]
    have hfile : ∀ f, f.isState → t.disk f = none := fun f hf => by
      rw [ht]
      exact gone_of_noState h.noState hf
    exact ⟨fun k _ => hsys k, fun k _ _ => hsys k, hfile _ rfl, hfile _ rfl, hfile _ rfl⟩
  · obtain ⟨hsys, hgone⟩ := h.endGeneration fs hok
    have hfile : ∀ f, f.isState → t.disk f = none := fun f hf =>
      (hgone f hf).resolve_right (by simp [hrm])
    exact ⟨fun k hk => hsys k (Or.inl hk), fun k _ hk => hsys k (Or.inr hk), hfile _ rfl, hfile _ rfl,
      hfile _ rfl⟩

/-- A session whose loader sets `FOO` and changes `PATH`, and in which `finalize` is killed after
exporting `WAYLAND_DISPLAY`. -/
theorem session_restoration_sway :
    let w := World.bare [("PATH".toList, "/bin".toList)]
    let S := plainSession "FOO=1\x00PATH=/usr/bin\x00".toList
      [.finalize (ExtTreeMap.ofList [("WAYLAND_DISPLAY".toList, "wayland-1".toList)]) []]
      [.run 0 ⟨[], plainOracle []⟩, .kill 0 ⟨1, ⟨[], plainOracle []⟩⟩]
    let t := (runIo (fun _ => false) endGeneration [] (S.ran (fun _ => false) w)).2
    (∀ k ∉ neverCleanup, t.systemd k = w.systemd k) ∧
      (∀ k ∈ neverCleanup, w.systemd k ≠ none → t.systemd k = w.systemd k) ∧
      t.disk .generation = none ∧ t.disk .envPre = none ∧ t.disk .cleanupList = none :=
  session_restoration (fun _ => false) (fun _ => false) (fun _ => rfl) _ _ (by decide)
    (Or.inr (by decide +kernel)) (fun h => absurd h.2 (by decide +kernel)) [] (by decide +kernel)

/-- Only `env_pre` cannot be written. -/
def envPreFails : Prim → Bool
  | .write .envPre _ => true
  | _ => false

/-- `prepare-env` stops by error, as its `begin_generation` cannot write `env_pre`; no exporter runs. -/
def unsavedSession : Session :=
  { plainSession [] [] [] with
    preparing := List.replicate 20 (.run 0 ⟨List.replicate 20 ⟨true, fun _ => true⟩, plainOracle []⟩) }

theorem unsaved_session_unsets_path :
    let w := World.bare [("PATH".toList, "/bin".toList)]
    (unsavedSession.preparation envPreFails w).returned 0 = true ∧
      (runIo (fun _ => false) endGeneration [] (unsavedSession.ran envPreFails w)).1 = .ok () ∧
      ¬ ∀ k ∉ neverCleanup,
        (runIo (fun _ => false) endGeneration [] (unsavedSession.ran envPreFails w)).2.systemd k = w.systemd k := by
  refine ⟨by decide +kernel, by decide +kernel, fun h => ?_⟩
  exact absurd (h "PATH".toList (by decide)) (by decide +kernel)

/-! ## One session after another -/

/-- A session and the faults its `end_generation` meets; `none` when it is abandoned. -/
abbrev Sitting := Session × Option (List Fault)

section
variable (may : Prim → Bool)

/-- The world in which a session leaves things. -/
def left (x : Sitting) (w : World) : World :=
  match x.2 with
  | some fs => (runIo may endGeneration fs (x.1.ran may w)).2
  | none => x.1.ran may w

def runSessions : List Sitting → World → World
  | [], w => w
  | x :: xs, w => runSessions xs (left may x w)

/-- In every session, also in those that are abandoned, `begin_generation` returns `Ok`, and so does `end_generation`
if it is run. -/
def Proper : List Sitting → World → Prop
  | [], _ => True
  | x :: xs, w => (x.1.prepared may w).history.begun = true ∧
      (∀ fs, x.2 = some fs → (runIo may endGeneration fs (x.1.ran may w)).1 = .ok ()) ∧
      Proper xs (left may x w)

/-- The environment binds every kept name outside `NEVER_CLEANUP` as the `env_pre` on disk does, if
there is session state at all. -/
def SnapshotCurrent (w : World) : Prop :=
  w.disk.HasState = true → ∀ k, keepName k = true → k ∉ neverCleanup → w.systemd k = w.disk.snapshot k

/-- Every `prepare_env` starts where the snapshot on disk is current. -/
def Undisturbed : List Sitting → World → Prop
  | [], _ => True
  | x :: xs, w => SnapshotCurrent w ∧ Undisturbed xs (left may x w)

end

section
variable {may : Prim → Bool} {w : World}

theorem keepName_of_snapshot {k : Str} (h : w.disk.snapshot k ≠ none) : keepName k = true := by
  obtain ⟨v, hv⟩ := Option.ne_none_iff_exists'.1 h
  exact keepName_of_pre hv

theorem SnapshotCurrent.nothingToUndo (h : SnapshotCurrent w) : NothingToUndo w := by
  intro k hk
  cases hst : w.disk.HasState with
  | false => exact nothingToUndo_of_noState hst k hk
  | true =>
    rw [recovered_of_hasState hst, settled]
    rcases hs : w.disk.snapshot k with _ | v
    · by_cases ho : k ∈ w.disk.owed
      · rw [Ledger.settle_owed hs ho, h hst k (keepName_of_owed ho) hk, hs]
      · rw [Ledger.settle_else hs ho]
    · rw [Ledger.settle_snapshot hs, h hst k (keepName_of_pre hs) hk, hs]

/-- Between sessions: the environment is what it was, or an abandoned session's accounts say how to
get back to it. -/
def Recoverable (base : ActEnv) (w : World) : Prop :=
  (∀ k ∉ neverCleanup, w.systemd k = base k) ∨
    ∃ b : ActEnv, (∀ k ∉ neverCleanup, b k = base k) ∧ Active b w

/-- An abandoned session whose snapshot is still current has changed nothing. -/
theorem Recoverable.unchanged {base : ActEnv} (h : Recoverable base w) (hc : SnapshotCurrent w) :
    ∀ k ∉ neverCleanup, w.systemd k = base k := by
  rcases h with h | ⟨b, hb, ha⟩
  · exact h
  · intro k hk
    rw [← hb k hk]
    obtain ⟨L, hbase, hL⟩ := ha.accounts
    by_cases hkeep : keepName k = true
    · rw [hc ha.hasState k hkeep hk, hL.snapshot, hL.complete k hkeep, hbase]
    · have hs : w.disk.snapshot k = none := by
        by_contra hs
        exact hkeep (keepName_of_snapshot hs)
      have ho : k ∉ w.disk.owed := fun ho => hkeep (keepName_of_owed ho)
      rcases L.accounted k (by rw [hL.exempt]; exact hk) with e | e | e
      · rw [hL.live, e, hbase]
      · exact absurd (hL.snapshot ▸ hs) e
      · exact absurd (hL.owed ▸ e) ho

theorem Recoverable.left {base : ActEnv} (h : Recoverable base w) (hc : SnapshotCurrent w) {x : Sitting}
    (hb : (x.1.prepared may w).history.begun = true)
    (hok : ∀ fs, x.2 = some fs → (runIo may endGeneration fs (x.1.ran may w)).1 = .ok ()) :
    (x.2 ≠ none → ∀ k ∉ neverCleanup, (left may x w).systemd k = base k) ∧ Recoverable base (left may x w) := by
  have hact := x.1.active_ran hc.nothingToUndo hb
  have hbase := h.unchanged hc
  obtain ⟨S, out⟩ := x
  cases out with
  | none => exact ⟨fun h => absurd rfl h, Or.inr ⟨w.systemd, hbase, hact⟩⟩
  | some fs =>
    have hsys := (hact.endGeneration fs (hok fs rfl)).1
    have hend : ∀ k ∉ neverCleanup, (Wsmr.left may (S, some fs) w).systemd k = base k := fun k hk =>
      (hsys k (Or.inl hk)).trans (hbase k hk)
    exact ⟨fun _ => hend, Or.inl hend⟩

theorem sessions_restore (base : ActEnv) (last : Session) (fs : List Fault) : ∀ (xs : List Sitting) (w : World),
    Recoverable base w → Proper may (xs ++ [(last, some fs)]) w → Undisturbed may (xs ++ [(last, some fs)]) w →
    ∀ k ∉ neverCleanup, (runSessions may (xs ++ [(last, some fs)]) w).systemd k = base k
  | [], _, h, hp, hu => (h.left hu.1 hp.1 hp.2.1).1 nofun
  | _ :: xs, _, h, hp, hu => sessions_restore base last fs xs _ (h.left hu.1 hp.1 hp.2.1).2 hp.2.2 hu.2

/-- **Recovery after abandoned sessions.** When every `prepare_env` starts where the snapshot on disk is current and
every `begin_generation` returns `Ok`, a sequence of sessions whose last one ends with a successful `end_generation`
leaves the environment it started from. -/
theorem abandoned_sessions_recovered (xs : List Sitting) (last : Session)
    (fs : List Fault) (hp : Proper may (xs ++ [(last, some fs)]) w)
    (hu : Undisturbed may (xs ++ [(last, some fs)]) w) :
    ∀ k ∉ neverCleanup, (runSessions may (xs ++ [(last, some fs)]) w).systemd k = w.systemd k :=
  sessions_restore w.systemd last fs xs w (Or.inl fun _ _ => rfl) hp hu

end

/-- A session that sets `FOO` is abandoned; the next one takes it for part of the environment it has
to restore. -/
theorem abandoned_session_survives :
    let w := World.bare []
    let xs : List Sitting := [(plainSession "FOO=1\x00".toList [] [], none), (plainSession [] [] [], some [])]
    Proper (fun _ => false) xs w ∧ "FOO".toList ∉ neverCleanup ∧
      (runSessions (fun _ => false) xs w).systemd "FOO".toList ≠ w.systemd "FOO".toList := by
  refine ⟨⟨by decide +kernel, nofun, by decide +kernel, ?_, trivial⟩, by decide, by decide +kernel⟩
  intro fs h
  obtain rfl := Option.some.inj h
  decide +kernel

/-- Abandoned before it has changed anything, a session is undone. -/
theorem abandoned_sessions_recovered_unchanged :
    let w := World.bare [("PATH".toList, "/bin".toList)]
    let xs : List Sitting := [(plainSession "PATH=/bin\x00".toList [] [], none)]
    let last := plainSession "FOO=1\x00PATH=/bin\x00".toList [] []
    ∀ k ∉ neverCleanup, (runSessions (fun _ => false) (xs ++ [(last, some [])]) w).systemd k = w.systemd k := by
  refine abandoned_sessions_recovered _ _ [] ?_ ?_
  · refine ⟨by decide +kernel, nofun, by decide +kernel, fun fs h => ?_, trivial⟩
    obtain rfl := Option.some.inj h
    decide +kernel
  · refine ⟨fun h => absurd h (by decide), fun _ k _ _ => ?_, trivial⟩
    have hsame : (left (fun _ => false) (plainSession "PATH=/bin\x00".toList [] [], none)
        (World.bare [("PATH".toList, "/bin".toList)])).systemd.vars =
      (left (fun _ => false) (plainSession "PATH=/bin\x00".toList [] [], none)
        (World.bare [("PATH".toList, "/bin".toList)])).disk.pre := by decide +kernel
    exact congrArg (fun env : Env => env[k]?) hsame

end Wsmr
