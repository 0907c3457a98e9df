import Wsmr.Session.Accounts

/-!
# Being killed half way (`begin_generation`, `restore_and_clear_locked`)

The state a killed or failing process leaves on disk is undone later, by `cleanup-env` or by the
next `prepare-env` (`Recovery`). Both functions work on several files one after another, and
`restore_and_clear_locked` reads a missing `env_pre` as an empty snapshot while it still takes away
the `always_cleanup` names. So `env_pre` has to be there whenever another state file is.

* `beginGeneration_interrupted_iff` — a beginning that stops half way is undone exactly unless
  `generation` was written and `env_pre` was not, and an `always_cleanup` name is bound.
* `restore_restarted_iff` — a restoring that is started again comes out the same exactly unless
  `env_pre` was gone before another file, and names of the snapshot are still owed.
-/

namespace Wsmr

open Text Std Effects

/-- What undoes the state on disk. -/
inductive Recovery where
  | endGeneration
  | beginGeneration (buf : Fin 8 → UInt8) (pre : Env)

def Recovery.prog : Recovery → Io Unit
  | .endGeneration => Wsmr.endGeneration
  | .beginGeneration buf pre => do
    let _ ← Wsmr.beginGeneration buf pre
    return ()

/-- What a recovery makes of the activation environment. -/
noncomputable def recovered (w : World) : Str → Option Str := if w.disk.HasState then settled w else w.systemd

section
variable {may : Prim → Bool} {w : World}

theorem Restored.systemd {t : World} (h : Restored may w t) (k : Str) : t.systemd k = recovered w k := by
  unfold recovered
  cases hs : w.disk.HasState with
  | false => rw [h.noState hs]; rfl
  | true => exact h.settled hs k

theorem recovery_spec (r : Recovery) : Prog.wpc (S := prims) (handle may) (fun _ => True)
    (fun res t => res = .ok () → ∀ k, t.systemd k = recovered w k) r.prog w := by
  cases r with
  | endGeneration =>
    refine Prog.wpc_mono (fun _ _ => trivial) ?_ endGeneration_spec
    rintro _ t _ h rfl
    exact h.systemd
  | beginGeneration buf pre =>
    unfold Recovery.prog
    dsimp only
    rw [Prog.ebind_eq]
    refine Prog.wpc_eseq (beginGeneration_spec buf pre) (fun _ _ => trivial) ?_ fun _ _ _ _ => nofun
    intro id t _ h
    obtain ⟨_, t', hr, rfl⟩ := h id rfl
    exact ⟨trivial, fun _ => hr.systemd⟩

/-! ## A beginning that stops half way -/

theorem snapshot_eq_none {d : Disk} (h : d .envPre = none) (k : Str) : d.snapshot k = none := by
  rw [Disk.snapshot, Disk.pre, h]
  simp [loadEnv]

theorem recovered_of_hasState (h : w.disk.HasState = true) : recovered w = settled w := by
  simp [recovered, h]

/-- `generation` is on disk and `env_pre` is not. -/
def Disk.Midway (d : Disk) : Prop := d .generation ≠ none ∧ d .envPre = none

/-- A snapshot that was never written is read as an empty one: `always_cleanup` names go. -/
theorem recovered_midway (hm : w.disk.Midway) (hl : w.disk .cleanupList = none) (k : Str) :
    recovered w k = if k ∈ alwaysCleanup then none else w.systemd k := by
  have hst : w.disk.HasState = true := by simp [Disk.HasState, Option.isSome_iff_ne_none.2 hm.1]
  have howed : k ∈ w.disk.owed ↔ k ∈ alwaysCleanup := by
    have hnl : ¬ w.disk.Listed k := by
      rintro ⟨g, _, he⟩
      simp [Disk.entries, hl, readCleanupEntries] at he
    exact ⟨fun hk => hk.1.resolve_left hnl, fun hk => ⟨Or.inr hk, alwaysCleanup_not_never k hk⟩⟩
  rw [recovered_of_hasState hst, settled, Ledger.settle_lost (snapshot_eq_none hm.2)]
  simp only [howed]

theorem recovered_midway_iff {t : World} (hm : t.disk.Midway) (hl : t.disk .cleanupList = none)
    (hs : t.systemd = w.systemd) :
    (∀ k, recovered t k = w.systemd k) ↔ ¬ ∃ k ∈ alwaysCleanup, w.systemd k ≠ none := by
  simp only [recovered_midway hm hl, hs]
  constructor
  · rintro he ⟨k, hk, hb⟩
    have := he k
    rw [if_pos hk] at this
    exact hb this.symm
  · intro hn k
    split
    · rename_i hk
      by_contra hb
      exact hn ⟨k, hk, Ne.symm hb⟩
    · rfl

/-- Once `env_pre` is written, recovery leaves the environment as it was. -/
theorem recovered_of_saved {t : World} (hsys : t.systemd = w.systemd)
    (h : t.disk .envPre = some (serializeEnv w.systemd.vars.kept .nul)) (k : Str) :
    recovered t k = w.systemd k := by
  have hacc : Accounts w.systemd t := accounts_of_snapshot (snapshot_of_saved_kept h) fun _ _ => by rw [hsys]
  have hst : t.disk.HasState = true := by simp [Disk.HasState, h]
  rw [recovered_of_hasState hst]
  exact hacc.settled (Or.inr (Or.inr (by rw [hsys])))

/-- How `begin_generation` can leave a disk that had no session state. -/
theorem beginGeneration_stop (hw : w.disk.HasState = false) (buf : Fin 8 → UInt8) (pre : Env) (n : Nat)
    (fs : List Fault) :
    Establishing (randomHexId buf) pre w (stopIo may n (beginGeneration buf pre) fs w) := by
  rcases stopIo_spec may n fs (beginGeneration_spec (w := w) buf pre) with h | ⟨hr, he⟩
  · cases h with
    | start h => exact .none h
    | settling hst _ => exact absurd (hw.symm.trans hst) nofun
    | clearing hst _ _ => exact absurd (hw.symm.trans hst) nofun
  · rwa [hr.noState hw] at he

theorem recovered_establishing_iff {t : World} {id : Str} (hw : w.disk.HasState = false)
    (h : Establishing id w.systemd.vars.kept w t) :
    (∀ k, recovered t k = w.systemd k) ↔ ¬ (t.disk.Midway ∧ ∃ k ∈ alwaysCleanup, w.systemd k ≠ none) := by
  have hsaved : t.systemd = w.systemd → t.disk .envPre = some (serializeEnv w.systemd.vars.kept .nul) →
      ((∀ k, recovered t k = w.systemd k) ↔
        ¬ (t.disk.Midway ∧ ∃ k ∈ alwaysCleanup, w.systemd k ≠ none)) := fun hs hp =>
    iff_of_true (recovered_of_saved hs hp) fun hm => by simp [Disk.Midway, hp] at hm
  have hnone : ∀ f, f.isState → w.disk f = none := fun f => gone_of_noState hw
  cases h with
  | none h =>
    subst h
    exact iff_of_true (fun k => by simp [recovered, hw]) fun hm => hm.1.1 (hnone _ rfl)
  | generation h =>
    have hm : t.disk.Midway := by simp [h, Disk.Midway, Disk.write, hnone .envPre rfl]
    have hl : t.disk .cleanupList = none := by simp [h, Disk.write, hnone .cleanupList rfl]
    rw [recovered_midway_iff hm hl (by rw [h])]
    exact not_congr (and_iff_right hm).symm
  | envPre h => exact hsaved (by rw [h]) (by simp [h])
  | all h => exact hsaved (by rw [h]) (by simp [h, Disk.established, Disk.write])

/-- **An interrupted beginning.** From an environment `E0` without session state, whatever call
fails and wherever `begin_generation` is killed, a recovery that succeeds leaves `E0`, exactly
unless it finds `generation` without `env_pre` and `E0` binds an `always_cleanup` name. -/
theorem beginGeneration_interrupted_iff (hw : w.disk.HasState = false) (buf : Fin 8 → UInt8) (n : Nat)
    (fs fs' : List Fault) (r : Recovery) :
    let t := stopIo may n (beginGeneration buf w.systemd.vars.kept) fs w
    (runIo may r.prog fs' t).1 = .ok () →
      ((∀ k, (runIo may r.prog fs' t).2.systemd k = w.systemd k) ↔
        ¬ (t.disk.Midway ∧ ∃ k ∈ alwaysCleanup, w.systemd k ≠ none)) := by
  intro t hok
  have hrec := (runIo_spec may fs' (recovery_spec (w := t) r)).2 hok
  simp only [hrec]
  exact recovered_establishing_iff hw (beginGeneration_stop hw buf _ n fs)

end

/-- Killed right after writing `generation`, `begin_generation` costs the environment its `PATH`. -/
theorem interrupted_beginning_unsets_path :
    let w := World.bare [("PATH".toList, "/bin".toList)]
    let t := stopIo (fun _ => false) 5 (beginGeneration (fun _ => 0) w.systemd.vars.kept) [] w
    (runIo (fun _ => false) endGeneration [] t).1 = .ok () ∧
      ¬ ∀ k, (runIo (fun _ => false) endGeneration [] t).2.systemd k = w.systemd k := by
  refine ⟨by decide +kernel, fun h => ?_⟩
  exact absurd (h "PATH".toList) (by decide +kernel)

/-- Killed one write later, it costs nothing. -/
theorem beginGeneration_interrupted_path :
    let w := World.bare [("PATH".toList, "/bin".toList)]
    let t := stopIo (fun _ => false) 6 (beginGeneration (fun _ => 0) w.systemd.vars.kept) [] w
    ∀ k, (runIo (fun _ => false) endGeneration [] t).2.systemd k = w.systemd k :=
  (beginGeneration_interrupted_iff (by decide) (fun _ => 0) 6 [] [] .endGeneration
    (by decide +kernel)).2 fun h => absurd h.1.2 (by decide +kernel)

/-! ## A restoring that is started again -/

section
variable {may : Prim → Bool} {w : World}

theorem owed_subset {d d' : Disk} (h : ∀ f, f.isState → d' f = d f ∨ d' f = none) : d'.owed ⊆ d.owed := by
  rintro k ⟨⟨g, hg, he⟩ | hk, hn⟩
  · refine ⟨Or.inl ⟨g, ?_, ?_⟩, hn⟩
    · rcases h .generation rfl with hf | hf
      · rw [Disk.current, ← hf]; exact hg
      · rw [Disk.current, hf] at hg; cases hg
    · rcases h .cleanupList rfl with hf | hf
      · rw [Disk.entries, ← hf]; exact he
      · rw [Disk.entries, hf] at he; simp [readCleanupEntries] at he
  · exact ⟨Or.inr hk, hn⟩

/-- When the second restoring comes out differently: the snapshot is gone, another file is not,
and a name of the snapshot is (still) owed. -/
def Forgotten (w t : World) : Prop :=
  t.disk .envPre = none ∧ t.disk.HasState = true ∧ ∃ k ∈ t.disk.owed, w.disk.snapshot k ≠ none

theorem not_forgotten_of_envPre {t : World} (h : t.disk .envPre = w.disk .envPre) : ¬ Forgotten w t := by
  rintro ⟨hp, _, k, _, hk⟩
  exact hk (snapshot_eq_none (h ▸ hp) k)

theorem recovered_restoring_iff {t : World} (hst : w.disk.HasState = true) (h : Restoring w t) :
    (∀ k, recovered t k = settled w k) ↔ ¬ Forgotten w t := by
  cases h with
  | start h =>
    subst h
    exact iff_of_true (fun k => by rw [recovered_of_hasState hst]) (not_forgotten_of_envPre rfl)
  | settling _ h =>
    refine iff_of_true (fun k => ?_) (not_forgotten_of_envPre (by rw [h.disk]))
    rw [recovered_of_hasState (by rw [h.disk]; exact hst), settled, h.disk,
      Ledger.settle_of_between h.between]
    rfl
  | clearing _ hset hdisk =>
    have hlive : t.systemd.get = settled w := funext hset
    cases ht : t.disk.HasState with
    | false =>
      have hnot : ¬ Forgotten w t := by
        rintro ⟨_, hst', _⟩
        simp [ht] at hst'
      refine iff_of_true (fun k => ?_) hnot
      simp [recovered, ht, hset]
    | true =>
      rw [recovered_of_hasState ht, settled, hlive]
      rcases hdisk .envPre rfl with hp | hp
      · have hsnap : t.disk.snapshot = w.disk.snapshot := by
          unfold Disk.snapshot Disk.pre
          rw [hp]
        refine iff_of_true (fun k => ?_) (not_forgotten_of_envPre hp)
        rw [hsnap, settled, Ledger.settle_settle (owed_subset hdisk)]
      · simp only [Ledger.settle_lost (snapshot_eq_none hp), Forgotten, hp, ht, true_and]
        constructor
        · rintro he ⟨k, hk, hs⟩
          have := he k
          rw [if_pos hk] at this
          obtain ⟨v, hv⟩ := Option.ne_none_iff_exists'.1 hs
          rw [settled, Ledger.settle_snapshot hv] at this
          cases this
        · intro hn k
          split
          · rename_i hk
            have hs : w.disk.snapshot k = none := by
              by_contra hs
              exact hn ⟨k, hk, hs⟩
            rw [settled, Ledger.settle_owed hs (owed_subset hdisk hk)]
          · rfl

/-- **Restarting a restoring.** `restore_and_clear_locked` is killed after any number of calls (or
fails, or cannot remove a file) and a recovery runs afterwards. The environment comes out as from
one whole run, exactly unless the recovery finds the snapshot forgotten. -/
theorem restore_restarted_iff (hst : w.disk.HasState = true) (n : Nat) (fs fs' fs₀ : List Fault) (r : Recovery) :
    let t := stopIo may n restoreAndClearLocked fs w
    (runIo may restoreAndClearLocked fs₀ w).1 = .ok () → (runIo may r.prog fs' t).1 = .ok () →
      ((∀ k, (runIo may r.prog fs' t).2.systemd k = (runIo may restoreAndClearLocked fs₀ w).2.systemd k) ↔
        ¬ Forgotten w t) := by
  intro t hwhole hok
  have hrec := (runIo_spec may fs' (recovery_spec (w := t) r)).2 hok
  have hset : ∀ k, (runIo may restoreAndClearLocked fs₀ w).2.systemd k = settled w k := by
    have := (runIo_spec may fs₀ (restoreAndClearLocked_spec (w := w))).2
    rw [hwhole] at this
    exact this.settled hst
  simp only [hrec, hset]
  exact recovered_restoring_iff hst (stopIo_spec may n fs restoreAndClearLocked_spec)

end

/-- A session that has recorded nothing yet. -/
def World.established (w : World) : World :=
  { w with disk := w.disk.established (randomHexId fun _ => 0) w.systemd.vars.kept }

/-- Killed between removing `env_pre` and removing `generation`, restoring costs `PATH`. -/
theorem restarted_restoring_unsets_path :
    let w := (World.bare [("PATH".toList, "/bin".toList)]).established
    let t := stopIo (fun _ => false) 11 restoreAndClearLocked [] w
    (runIo (fun _ => false) restoreAndClearLocked [] w).1 = .ok () ∧
      (runIo (fun _ => false) endGeneration [] t).1 = .ok () ∧
      ¬ ∀ k, (runIo (fun _ => false) endGeneration [] t).2.systemd k =
        (runIo (fun _ => false) restoreAndClearLocked [] w).2.systemd k := by
  refine ⟨by decide +kernel, by decide +kernel, fun h => ?_⟩
  exact absurd (h "PATH".toList) (by decide +kernel)

/-- Killed one removal earlier, it costs nothing. -/
theorem restore_restarted_path :
    let w := (World.bare [("PATH".toList, "/bin".toList)]).established
    let t := stopIo (fun _ => false) 10 restoreAndClearLocked [] w
    ∀ k, (runIo (fun _ => false) endGeneration [] t).2.systemd k =
      (runIo (fun _ => false) restoreAndClearLocked [] w).2.systemd k :=
  (restore_restarted_iff (by decide +kernel) 10 [] [] [] .endGeneration (by decide +kernel)
    (by decide +kernel)).2 fun h => absurd h.1 (by decide +kernel)

end Wsmr
