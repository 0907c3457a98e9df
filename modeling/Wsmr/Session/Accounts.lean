import Wsmr.Session.StateSpec

/-!
# The session state keeps a ledger

`Keeps L w`: the files and the activation environment of `w` are the ledger `L`. Recording names is
`Ledger.owe`, setting and unsetting variables is `Ledger.change`, and `restore_and_clear_locked`
settles it, so `Ledger.settle_base` says what it makes of the environment.
-/

namespace Wsmr

open Text Std Effects

structure Keeps (L : Ledger Str Str) (w : World) : Prop where
  snapshot : w.disk.snapshot = L.snapshot
  owed : w.disk.owed = L.owed
  live : w.systemd.get = L.live
  exempt : L.exempt = {k | k ∈ neverCleanup}
  /-- Every kept name the session started with is in the snapshot. -/
  complete : ∀ k, keepName k = true → L.snapshot k = L.base k

/-- Every difference between the environment and `base` is accounted for by the files. -/
def Accounts (base : ActEnv) (w : World) : Prop := ∃ L : Ledger Str Str, L.base = base.get ∧ Keeps L w

section
variable {base : ActEnv} {w t : World}

/-- **Settling restores the base**: outside `NEVER_CLEANUP`, wherever the base binds the name, and
wherever the name has not changed. -/
theorem Accounts.settled (h : Accounts base w) {k : Str}
    (hk : k ∉ neverCleanup ∨ base k ≠ none ∨ w.systemd k = base k) : settled w k = base k := by
  obtain ⟨L, hb, hL⟩ := h
  rw [Wsmr.settled, hL.snapshot, hL.owed, hL.live, ← hb]
  apply L.settle_base
  rw [← hL.live, hb]
  by_cases hn : k ∈ neverCleanup
  · refine Or.inr (hk.resolve_left (absurd hn) |>.imp_left fun hb' => ?_)
    rwa [hL.complete k (keepName_neverCleanup k hn), hb]
  · exact Or.inl (by rw [hL.exempt]; exact hn)

/-- The environment changes on names that are accounted for, or back to the base. -/
theorem Accounts.change (h : Accounts base w) (hd : t.disk = w.disk)
    (ht : ∀ k ∉ neverCleanup,
      t.systemd k = w.systemd k ∨ t.systemd k = base k ∨ w.disk.snapshot k ≠ none ∨ k ∈ w.disk.owed) :
    Accounts base t := by
  obtain ⟨L, hb, hL⟩ := h
  refine ⟨L.change t.systemd.get fun k hk => ?_, hb, ?_⟩
  · rw [← hL.live, ← hL.snapshot, ← hL.owed, hb]
    rw [hL.exempt] at hk
    exact ht k hk
  · exact ⟨by rw [hd]; exact hL.snapshot, by rw [hd]; exact hL.owed, rfl, hL.exempt, hL.complete⟩

/-- Names that are kept and not in the snapshot were not bound at the start. -/
theorem Accounts.base_none (h : Accounts base w) {k : Str} (hk : keepName k = true)
    (hs : w.disk.snapshot k = none) : base k = none := by
  obtain ⟨L, hb, hL⟩ := h
  rw [← hb, ← hL.complete k hk, ← hL.snapshot, hs]

/-- A (partial) set of names that are in the snapshot, owed or exempt. -/
theorem Accounts.wrote {vars : Env} (h : Accounts base w) (hw : Wrote vars w t)
    (hv : ∀ k v : Str, vars[k]? = some v → k ∈ neverCleanup ∨ w.disk.snapshot k ≠ none ∨ k ∈ w.disk.owed) :
    Accounts base t :=
  h.change hw.disk fun k hk => (hw.systemd k).imp_right fun ⟨v, hkv, _⟩ =>
    Or.inr ((hv k v hkv).resolve_left hk)

/-- A (partial) unset of kept names. -/
theorem Accounts.erased {names : List Str} (h : Accounts base w) (he : Erased names w t)
    (hn : ∀ k ∈ names, keepName k = true) : Accounts base t := by
  refine h.change he.disk fun k _ => (he.systemd k).imp_right fun ⟨hk, hnone⟩ => ?_
  cases hs : w.disk.snapshot k with
  | none => exact Or.inl (hnone.trans (h.base_none (hn k hk) hs).symm)
  | some v => exact Or.inr (Or.inl nofun)

theorem listed_record {g k : Str} {names : List Str} (hg : TagOk g) (hc : w.disk.current = some g) :
    (w.record g names).disk.Listed k ↔ w.disk.Listed k ∨ (k ∈ names ∧ keepName k = true) := by
  have hcur : (w.record g names).disk.current = some g := by
    rw [Disk.current, disk_record (by decide)]
    exact hc
  simp [Disk.Listed, hcur, hc, entries_record hg, mem_insertNames]

theorem snapshot_record {g : Str} {names : List Str} :
    (w.record g names).disk.snapshot = w.disk.snapshot := by
  unfold Disk.snapshot Disk.pre
  rw [disk_record (by decide)]

/-- Recording names owes them. -/
theorem Accounts.record {g : Str} {names : List Str} (h : Accounts base w) (hg : TagOk g)
    (hc : w.disk.current = some g) : Accounts base (w.record g names) := by
  have hbase := @Accounts.base_none _ _ h
  obtain ⟨L, hb, hL⟩ := h
  refine ⟨L.owe {k | k ∈ names ∧ keepName k = true ∧ k ∉ neverCleanup} ?_, hb, ?_⟩
  · rintro k ⟨_, hk, _⟩ hs
    rw [hb]
    exact hbase hk (hL.snapshot ▸ hs)
  · refine ⟨snapshot_record.trans hL.snapshot, ?_, hL.live, hL.exempt, hL.complete⟩
    ext k
    show (_ ∨ _) ∧ _ ↔ _ ∨ _
    rw [listed_record hg hc, ← hL.owed]
    simp only [Disk.owed, Set.mem_ofPred_eq]
    tauto

/-! ## A new generation -/

theorem snapshot_of_saved {d : Disk} {pre : Env} (h : d .envPre = some (serializeEnv pre .nul))
    (hn : NulFree pre) (k : Str) : d.snapshot k = if keepName k then pre[k]? else none := by
  rw [Disk.snapshot, Disk.pre, h]
  show (parseEnvNul _)[k]? = _
  rw [parseEnvNul_serializeEnv hn, getElem?_kept]

theorem current_of_minted {d : Disk} {buf : Fin 8 → UInt8} (h : d .generation = some (randomHexId buf ++ ['\n'])) :
    d.current = some (randomHexId buf) := by
  rw [Disk.current, h, generationOf_randomHexId]

/-- What `systemd_vars` reports is saved and read back as it is. -/
theorem snapshot_of_saved_kept {d : Disk} {e : ActEnv} (h : d .envPre = some (serializeEnv e.vars.kept .nul))
    (k : Str) : d.snapshot k = if keepName k then e k else none := by
  rw [snapshot_of_saved h, getElem?_kept]
  · split <;> rfl
  · intro k v hv
    rw [getElem?_kept] at hv
    split at hv
    · exact e.nulFree k v hv
    · cases hv

/-- The accounts of an environment are in order when its snapshot is on disk and nothing outside
`NEVER_CLEANUP` has changed since. -/
theorem accounts_of_snapshot (hsnap : ∀ k, t.disk.snapshot k = if keepName k then base k else none)
    (hsys : ∀ k ∉ neverCleanup, t.systemd k = base k) : Accounts base t := by
  have hbase : ∀ k v, t.disk.snapshot k = some v → base k = some v := fun k v h => by
    rw [hsnap] at h
    split at h
    · exact h
    · cases h
  have howed : ∀ k ∈ t.disk.owed, t.disk.snapshot k = none → base k = none := fun k hk h => by
    rwa [hsnap, if_pos (keepName_of_owed hk)] at h
  let L := Ledger.opened base.get t.disk.snapshot t.disk.owed {k | k ∈ neverCleanup} hbase howed
  refine ⟨L.change t.systemd.get fun k hk => Or.inr (Or.inl (hsys k hk)), rfl, rfl, rfl, rfl, rfl, ?_⟩
  intro k hk
  show t.disk.snapshot k = _
  rw [hsnap, if_pos hk]
  rfl

end

end Wsmr
