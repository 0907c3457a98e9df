import Wsmr.Lib.Ledger
import Wsmr.Session.State

/-!
# What the session-state functions do to the world

Read as a ledger, the state files bind the names of a snapshot (`env_pre`) and say which names are
owed (the current generation's cleanup list and `always_cleanup`, less `never_cleanup`).
`restore_and_clear_locked` settles it: the snapshot is put back, owed names are taken away.

* `restoreAndClearLocked_spec`, `beginGeneration_spec`, `appendCleanup_spec`, `endGeneration_spec`
  — the world at any point of the run, and at its end when the function returns `Ok`.
-/

namespace Wsmr

open Text Std Effects Prog

/-! ## Reading the state files -/

/-- The generation on record. -/
def Disk.current (d : Disk) : Option Str := generationOf (d .generation)

/-- The entries of the cleanup list, of every generation. -/
def Disk.entries (d : Disk) : Entries := readCleanupEntries (d .cleanupList)

def Disk.pre (d : Disk) : Env := loadEnv (d .envPre)

def Disk.snapshot (d : Disk) : Str → Option Str := fun k => d.pre[k]?

/-- The current generation asks for `k` to be cleaned up. -/
def Disk.Listed (d : Disk) (k : Str) : Prop := ∃ g, d.current = some g ∧ (⟨g, k⟩ : CleanupEntry) ∈ d.entries

def Disk.owed (d : Disk) : Set Str := {k | (d.Listed k ∨ k ∈ alwaysCleanup) ∧ k ∉ neverCleanup}

/-- One of the three files is there. -/
def Disk.HasState (d : Disk) : Bool := (d .generation).isSome || (d .cleanupList).isSome || (d .envPre).isSome

def File.isState : File → Bool
  | .generation | .envPre | .cleanupList => true
  | _ => false

/-- The three state files are the same. -/
def SameState (d d' : Disk) : Prop := ∀ f, f.isState → d' f = d f

section
variable {d d' : Disk}

theorem SameState.current (h : SameState d d') : d'.current = d.current := by rw [Disk.current, h _ rfl]; rfl
theorem SameState.entries (h : SameState d d') : d'.entries = d.entries := by rw [Disk.entries, h _ rfl]; rfl

theorem SameState.snapshot (h : SameState d d') : d'.snapshot = d.snapshot := by
  unfold Disk.snapshot Disk.pre
  rw [h _ rfl]

theorem SameState.owed (h : SameState d d') : d'.owed = d.owed := by
  ext k
  simp only [Disk.owed, Disk.Listed, h.current, h.entries]

theorem SameState.hasState (h : SameState d d') : d'.HasState = d.HasState := by
  unfold Disk.HasState
  rw [h .generation rfl, h .cleanupList rfl, h .envPre rfl]

end

/-- The activation environment with the snapshot put back and the owed names taken away. -/
noncomputable def settled (w : World) : Str → Option Str :=
  Ledger.settle w.disk.snapshot w.disk.owed w.systemd

theorem keepName_of_pre {d : Disk} {k v : Str} (h : d.pre[k]? = some v) : keepName k = true := by
  unfold Disk.pre loadEnv at h
  split at h
  · exact keepName_of_parseEnvNul h
  · simp at h

theorem keepName_of_owed {d : Disk} {k : Str} (h : k ∈ d.owed) : keepName k = true := by
  obtain ⟨⟨g, _, hg⟩ | hk, _⟩ := h
  · exact (validEntries_read _ _ hg).name
  · exact keepName_alwaysCleanup k hk

theorem nulFree_loadEnv (s : Option Str) : NulFree (loadEnv s) := by
  unfold loadEnv
  split
  · exact nulFree_parseEnvNul _
  · intro k v h
    simp at h

/-! ## Single steps -/

section
variable {may : Prim → Bool} {w : World} {C : World → Prop}

theorem wpc_readFile {f : File} {Q : Except Error (Option Str) → World → Prop} (hc : C w)
    (hok : Q (.ok (w.disk f)) w) (herr : ∀ e, Q (.error e) w) : (readFile f).wpc (handle may) C Q w :=
  wpc_look (.read f) hc ⟨rfl, fun _ => rfl⟩ hok (herr _)

theorem wpc_writeFile {f : File} {t : Str} {Q : Except Error Unit → World → Prop} (hc : C w)
    (hok : C { w with disk := w.disk.write f t } ∧ Q (.ok ()) { w with disk := w.disk.write f t })
    (herr : ∀ e, Q (.error e) w) : (writeFile f t).wpc (handle may) C Q w :=
  wpc_orFail (.write f t) hc (fun _ => hok) fun _ _ => ⟨hc, herr _⟩

theorem wpc_fileExists {f : File} {Q : Except Error Bool → World → Prop} (hc : C w)
    (hok : Q (.ok (w.disk f).isSome) w) : (fileExists f).wpc (handle may) C Q w := by
  refine wpc_bind (wpc_perform (.exists f) hc (fun _ => ?_) fun p h => ?_)
  · exact ⟨hc, hc, hok⟩
  · simp [Prim.refused, Prim.fallible] at h

theorem wpc_locked {α : Type} {body : Io α} {Q : Except Error α → World → Prop} (hc : C w)
    (hb : Prog.wpc (S := prims) (handle may) C Q body w) (herr : ∀ e, Q (.error e) w) :
    (locked body).wpc (handle may) C Q w := by
  unfold locked
  rw [ebind_eq]
  refine wpc_ebind (wpc_look .lock hc ⟨rfl, fun _ => rfl⟩ ?_ (herr _))
  refine wpc_bind (wpc_mono (fun _ h => h) (fun r t ht hr => ?_) hb)
  refine wpc_bind (wpc_perform .unlock ht (fun _ => ?_) fun p h => ?_)
  · exact ⟨ht, ht, hr⟩
  · simp [Prim.refused, Prim.fallible] at h

/-! ## Restoring -/

theorem anyState_spec : anyState.wpc (handle may) (w = ·) (fun r _ => r = .ok w.disk.HasState) w := by
  unfold anyState
  simp only [ebind_eq]
  refine wpc_ebind (wpc_fileExists rfl ?_)
  refine wpc_ebind (wpc_fileExists rfl ?_)
  refine wpc_ebind (wpc_fileExists rfl ?_)
  exact ⟨rfl, rfl⟩

theorem readGeneration_spec :
    readGeneration.wpc (handle may) (w = ·) (fun r _ => ∀ c, r = .ok c → c = w.disk.current) w := by
  unfold readGeneration
  rw [ebind_eq]
  refine wpc_ebind (wpc_readFile rfl ⟨rfl, ?_⟩ fun _ => nofun)
  rintro c h
  exact (Except.ok.inj h).symm

theorem listedNames_spec : (listedNames w.disk.current).wpc (handle may) (w = ·)
    (fun r _ => ∀ l, r = .ok l → ∀ k, k ∈ l ↔ w.disk.Listed k) w := by
  unfold listedNames Disk.Listed
  cases hg : w.disk.current with
  | none =>
    refine ⟨rfl, fun l h k => ?_⟩
    obtain rfl := Except.ok.inj h
    simp
  | some g =>
    dsimp only
    rw [ebind_eq]
    refine wpc_ebind (wpc_readFile rfl ⟨rfl, fun l h k => ?_⟩ fun _ => nofun)
    obtain rfl := Except.ok.inj h
    simp only [List.mem_map, List.mem_filter, ExtTreeSet.mem_toList, beq_iff_eq, Option.some.injEq,
      exists_eq_left', Disk.entries]
    constructor
    · rintro ⟨⟨g', k'⟩, ⟨he, rfl⟩, rfl⟩
      exact he
    · exact fun he => ⟨⟨g, k⟩, ⟨he, rfl⟩, rfl⟩

theorem mem_namesToUnset {listed : List Str} {envPre systemd : Env} {k : Str} :
    k ∈ namesToUnset listed envPre systemd ↔
      (k ∈ listed ∨ k ∈ alwaysCleanup) ∧ k ∉ neverCleanup ∧ k ∈ systemd ∧ envPre[k]? = none := by
  have hc : envPre.contains k = false ↔ envPre[k]? = none := by
    rw [ExtTreeMap.contains_eq_isSome_getElem?]
    cases envPre[k]? <;> simp
  simp [namesToUnset, ExtTreeSet.mem_ofList, List.contains_eq_mem, hc, and_assoc]

theorem unsetAll_spec (names : List Str) : (unsetAll names).wpc (handle may) (Erased names w)
    (fun r w' => r = .ok () → ∀ k, w'.systemd k = if k ∈ names then none else w.systemd k) w := by
  unfold unsetAll
  split
  · rename_i h
    obtain rfl := List.isEmpty_iff.1 h
    exact ⟨⟨rfl, fun _ => Or.inl rfl⟩, fun _ _ => rfl⟩
  · exact unsetSystemdVars_spec names

theorem setAll_spec {vars : Env} (h : KeptNames vars) : (setAll vars).wpc (handle may) (Wrote vars w)
    (fun r w' => r = .ok () → ∀ k, w'.systemd k = vars[k]?.or (w.systemd k)) w := by
  unfold setAll
  split
  · rename_i h
    obtain rfl := ExtTreeMap.isEmpty_iff.1 h
    refine ⟨⟨rfl, fun _ => Or.inl rfl⟩, fun _ k => ?_⟩
    simp
  · exact setSystemdVars_spec h

/-- The files are untouched and every name is as before or as settling leaves it. -/
structure Settling (w t : World) : Prop where
  disk : t.disk = w.disk
  between : Ledger.Between w.disk.snapshot w.disk.owed w.systemd t.systemd

theorem settling_refl : Settling w w := ⟨rfl, Ledger.between_refl⟩

/-- The names the original unsets are the owed ones that are there to be unset. -/
theorem mem_namesToUnset_iff {listed : List Str} (hl : ∀ k, k ∈ listed ↔ w.disk.Listed k) (k : Str) :
    k ∈ namesToUnset listed w.disk.pre w.systemd.vars.kept ↔
      k ∈ w.disk.owed ∧ w.disk.snapshot k = none ∧ w.systemd k ≠ none := by
  have hs : keepName k = true → (k ∈ w.systemd.vars.kept ↔ w.systemd k ≠ none) := fun hk => by
    rw [ExtTreeMap.mem_iff_isSome_getElem?, getElem?_kept, if_pos hk, ← Option.isSome_iff_ne_none]
    rfl
  rw [mem_namesToUnset, hl]
  constructor
  · rintro ⟨ho, hn, hk, hp⟩
    exact ⟨⟨ho, hn⟩, hp, (hs (keepName_of_owed ⟨ho, hn⟩)).1 hk⟩
  · rintro ⟨ho, hp, hk⟩
    exact ⟨ho.1, ho.2, (hs (keepName_of_owed ho)).2 hk, hp⟩

/-- Unsetting, then putting the snapshot back, settles. -/
theorem or_unset_eq_settled {names : List Str}
    (hn : ∀ k, k ∈ names ↔ k ∈ w.disk.owed ∧ w.disk.snapshot k = none ∧ w.systemd k ≠ none) (k : Str) :
    (w.disk.snapshot k).or (if k ∈ names then none else w.systemd k) = settled w k := by
  rcases hs : w.disk.snapshot k with _ | v
  · by_cases ho : k ∈ w.disk.owed
    · rw [settled, Ledger.settle_owed hs ho]
      cases hk : w.systemd k with
      | none => simp
      | some v => simp [(hn k).2 ⟨ho, hs, by simp [hk]⟩]
    · rw [settled, Ledger.settle_else hs ho]
      simp [mt (fun h => ((hn k).1 h).1) ho]
  · rw [settled, Ledger.settle_snapshot hs]
    rfl

/-- **Restoring settles the ledger**, and a restoring that stops half way can be resumed. -/
theorem restoreEnvironment_spec : restoreEnvironment.wpc (handle may) (Settling w)
    (fun r t => r = .ok () → ∀ k, t.systemd k = settled w k) w := by
  have hlook : ∀ t, w = t → Settling w t := by rintro _ rfl; exact settling_refl
  unfold restoreEnvironment
  simp only [ebind_eq]
  refine wpc_eseq readGeneration_spec hlook ?_ fun _ _ _ _ => nofun
  rintro c _ rfl hc
  obtain rfl := hc c rfl
  refine wpc_eseq listedNames_spec hlook ?_ fun _ _ _ _ => nofun
  rintro listed _ rfl hl
  refine wpc_ebind (wpc_readFile settling_refl ?_ fun _ => nofun)
  refine wpc_eseq systemdVars_spec hlook ?_ fun _ _ _ _ => nofun
  rintro systemd _ rfl hv
  obtain rfl := hv systemd rfl
  have hn := mem_namesToUnset_iff (hl listed rfl)
  refine wpc_eseq (unsetAll_spec _) ?_ ?_ fun _ _ _ _ => nofun
  · intro t' he
    refine ⟨he.disk, fun k => (he.systemd k).imp_right fun ⟨hk, hnone⟩ => ?_⟩
    obtain ⟨ho, hs, _⟩ := (hn k).1 hk
    rw [hnone, Ledger.settle_owed hs ho]
  · rintro _ t' he hu
    have hset : ∀ k, (w.disk.snapshot k).or (t'.systemd k) = settled w k := fun k => by
      rw [hu rfl k]
      exact or_unset_eq_settled hn k
    refine wpc_mono ?_ ?_ (setAll_spec fun k v => keepName_of_pre)
    · refine fun t'' hw => ⟨hw.disk.trans he.disk, fun k => ?_⟩
      rcases hw.systemd k with h | ⟨v, hp, h⟩
      · rw [h, hu rfl k]
        split
        · rename_i hk
          obtain ⟨ho, hs, _⟩ := (hn k).1 hk
          exact Or.inr (Ledger.settle_owed hs ho).symm
        · exact Or.inl rfl
      · exact Or.inr (h.trans (Ledger.settle_snapshot hp).symm)
    · intro r t'' _ hr h k
      rw [hr h k]
      exact hset k

/-- The environment is untouched and state files are as before or gone. -/
structure Clearing (w t : World) : Prop where
  systemd : t.systemd = w.systemd
  disk : ∀ f, f.isState → t.disk f = w.disk f ∨ t.disk f = none

theorem clearing_refl : Clearing w w := ⟨rfl, fun _ _ => Or.inl rfl⟩

theorem Clearing.trans {u v t : World} (h : Clearing u v) (h' : Clearing v t) : Clearing u t where
  systemd := h'.systemd.trans h.systemd
  disk f hf := (h'.disk f hf).elim (fun e => e ▸ h.disk f hf) Or.inr

/-- A file that could not be removed may still be there. -/
def Gone (may : Prim → Bool) (t : World) (f : File) : Prop := t.disk f = none ∨ may (.remove f) = true

theorem Gone.clearing {t t' : World} {f : File} (hf : f.isState) (h : Gone may t f) (hc : Clearing t t') :
    Gone may t' f :=
  h.imp_left fun e => (hc.disk f hf).elim (fun e' => e'.trans e) id

theorem removeFile_spec (f : File) : (removeFile f).wpc (handle may) (Clearing w)
    (fun r t => r = .ok () ∧ Clearing w t ∧ Gone may t f) w := by
  have hrm : Clearing w { w with disk := w.disk.remove f } := by
    refine ⟨rfl, fun g _ => ?_⟩
    by_cases hg : g = f
    · exact Or.inr (hg ▸ Disk.remove_self _ _)
    · exact Or.inl (Disk.remove_ne hg)
  refine wpc_bind (wpc_perform (.remove f) clearing_refl (fun _ => ?_) fun p h => ?_)
  · exact ⟨hrm, hrm, rfl, hrm, Or.inl (Disk.remove_self _ _)⟩
  · refine ⟨clearing_refl, clearing_refl, rfl, clearing_refl, Or.inr ?_⟩
    exact (h.resolve_left (by simp [Prim.refused])).1

theorem sweepStrayPrepareVars_spec : sweepStrayPrepareVars.wpc (handle may) (Clearing w)
    (fun r t => r = .ok () ∧ Clearing w t) w := by
  have hsw : ∀ p, Clearing w { w with disk := w.disk.sweep p } := by
    refine fun p => ⟨rfl, fun f hf => Or.inl ?_⟩
    cases f <;> first | rfl | exact absurd hf (by simp [File.isState])
  refine wpc_bind (wpc_perform .sweepVars clearing_refl (fun _ => ?_) fun p _ => ?_)
  · exact ⟨hsw _, hsw _, rfl, hsw _⟩
  · exact ⟨hsw _, hsw _, rfl, hsw _⟩

/-- **Clearing removes the three files**, as far as removing works. -/
theorem clearState_spec : clearState.wpc (handle may) (Clearing w)
    (fun r t => r = .ok () ∧ ∀ f, f.isState → Gone may t f) w := by
  unfold clearState
  simp only [ebind_eq]
  refine wpc_eseq (removeFile_spec _) (fun _ => id) ?_ fun _ _ _ h => absurd h.1 nofun
  rintro _ t1 c1 ⟨_, _, g1⟩
  refine wpc_eseq (removeFile_spec _) (fun _ => c1.trans) ?_ fun _ _ _ h => absurd h.1 nofun
  rintro _ t2 c2 ⟨_, _, g2⟩
  refine wpc_eseq (removeFile_spec _) (fun _ c => c1.trans (c2.trans c)) ?_ fun _ _ _ h => absurd h.1 nofun
  rintro _ t3 c3 ⟨_, _, g3⟩
  refine wpc_mono (fun _ c => c1.trans (c2.trans (c3.trans c))) ?_ sweepStrayPrepareVars_spec
  rintro _ t4 _ ⟨rfl, c4⟩
  refine ⟨rfl, fun f hf => ?_⟩
  cases f with
  | cleanupList => exact g1.clearing rfl (c2.trans (c3.trans c4))
  | envPre => exact g2.clearing rfl (c3.trans c4)
  | generation => exact g3.clearing rfl c4
  | _ => exact absurd hf (by simp [File.isState])

/-- At any point of restoring and clearing: nothing is removed before everything is restored. -/
inductive Restoring (w t : World) : Prop where
  | start (h : t = w)
  | settling (hst : w.disk.HasState = true) (h : Settling w t)
  | clearing (hst : w.disk.HasState = true) (settled : ∀ k, t.systemd k = settled w k)
      (disk : ∀ f, f.isState → t.disk f = w.disk f ∨ t.disk f = none)

theorem Restoring.between {t : World} (h : Restoring w t) :
    Ledger.Between w.disk.snapshot w.disk.owed w.systemd t.systemd := by
  cases h with
  | start h => exact h ▸ Ledger.between_refl
  | settling _ h => exact h.between
  | clearing _ h _ => exact fun k => Or.inr (h k)

/-- After restoring and clearing: a no-op without state, else everything is restored and the files
are gone as far as removing works. -/
structure Restored (may : Prim → Bool) (w t : World) : Prop where
  noState : w.disk.HasState = false → t = w
  settled : w.disk.HasState = true → ∀ k, t.systemd k = settled w k
  gone : ∀ f, f.isState → Gone may t f
  disk : ∀ f, f.isState → t.disk f = w.disk f ∨ t.disk f = none

theorem gone_of_noState {f : File} (h : w.disk.HasState = false) (hf : f.isState) : w.disk f = none := by
  simp only [Disk.HasState, Bool.or_eq_false_iff, Option.isSome_eq_false_iff, Option.isNone_iff_eq_none] at h
  cases f with
  | generation => exact h.1.1
  | cleanupList => exact h.1.2
  | envPre => exact h.2
  | _ => exact absurd hf (by simp [File.isState])

/-- **`restore_and_clear_locked`**: an error leaves the files as they were. -/
theorem restoreAndClearLocked_spec : restoreAndClearLocked.wpc (handle may) (Restoring w)
    (fun r t => match r with
      | .ok _ => Restored may w t
      | .error _ => Settling w t) w := by
  unfold restoreAndClearLocked
  simp only [ebind_eq]
  have hlook : ∀ t, w = t → Restoring w t := by rintro _ rfl; exact .start rfl
  refine wpc_eseq anyState_spec hlook ?_ fun _ _ _ h => absurd h nofun
  rintro any _ rfl h
  obtain rfl := Except.ok.inj h
  cases hst : w.disk.HasState with
  | false =>
    refine ⟨.start rfl, ⟨fun _ => rfl, fun h => absurd (hst.symm.trans h) nofun, ?_, ?_⟩⟩
    · exact fun f hf => Or.inl (gone_of_noState hst hf)
    · exact fun _ _ => Or.inl rfl
  | true =>
    refine wpc_eseq restoreEnvironment_spec (fun _ => .settling hst) ?_ fun _ _ hs _ => hs
    rintro _ t hs hok
    have hset := hok rfl
    refine wpc_mono ?_ ?_ clearState_spec
    · intro t' hc
      refine .clearing hst (fun k => by rw [hc.systemd]; exact hset k) fun f hf => ?_
      exact hs.disk ▸ hc.disk f hf
    · rintro _ t' hc ⟨rfl, hg⟩
      exact ⟨fun h => absurd (hst.symm.trans h) nofun, fun _ k => by rw [hc.systemd]; exact hset k, hg,
        fun f hf => hs.disk ▸ hc.disk f hf⟩

theorem endGeneration_spec : endGeneration.wpc (handle may) (Restoring w)
    (fun r t => match r with
      | .ok _ => Restored may w t
      | .error _ => Settling w t) w :=
  wpc_locked (.start rfl) restoreAndClearLocked_spec fun _ => settling_refl

/-! ## Beginning a generation -/

/-- The state files of a generation nothing has been recorded for yet. -/
def Disk.established (d : Disk) (id : Str) (pre : Env) : Disk :=
  ((d.write .generation (id ++ ['\n'])).write .envPre (serializeEnv pre .nul)).write .cleanupList
    (writeCleanupEntries ∅)

/-- How far the three writes of a new generation have got. -/
inductive Establishing (id : Str) (pre : Env) (w t : World) : Prop where
  | none (h : t = w)
  | generation (h : t = { w with disk := w.disk.write .generation (id ++ ['\n']) })
  | envPre (h : t = { w with
      disk := (w.disk.write .generation (id ++ ['\n'])).write .envPre (serializeEnv pre .nul) })
  | all (h : t = { w with disk := w.disk.established id pre })

theorem establish_spec (id : Str) (pre : Env) :
    (establish id pre).wpc (handle may) (Establishing id pre w)
      (fun r t => ∀ id', r = .ok id' → id' = id ∧ t = { w with disk := w.disk.established id pre }) w := by
  unfold establish
  simp only [ebind_eq]
  refine wpc_ebind (wpc_writeFile (.none rfl) ⟨.generation rfl, ?_⟩ fun _ => nofun)
  refine wpc_ebind (wpc_writeFile (.generation rfl) ⟨.envPre rfl, ?_⟩ fun _ => nofun)
  refine wpc_ebind (wpc_writeFile (.envPre rfl) ⟨.all rfl, ?_⟩ fun _ => nofun)
  exact ⟨.all rfl, fun id' h => ⟨(Except.ok.inj h).symm, rfl⟩⟩

/-- At any point of `begin_generation`: what an earlier session left is being undone, or it has
been and the new state is being written. -/
inductive Beginning (may : Prim → Bool) (id : Str) (pre : Env) (w t : World) : Prop where
  | restoring (h : Restoring w t)
  | establishing {t' : World} (h : Restored may w t') (he : Establishing id pre t' t)

theorem Beginning.start {id : Str} {pre : Env} : Beginning may id pre w w :=
  .restoring (.start rfl)

/-- **`begin_generation`**: it returns the id once the old state is undone and the new one stands. -/
theorem beginGeneration_spec (buf : Fin 8 → UInt8) (pre : Env) :
    (beginGeneration buf pre).wpc (handle may) (Beginning may (randomHexId buf) pre w)
      (fun r t => ∀ id, r = .ok id → id = randomHexId buf ∧
        ∃ t', Restored may w t' ∧ t = { t' with disk := t'.disk.established id pre }) w := by
  refine wpc_locked .start ?_ fun _ => nofun
  rw [ebind_eq]
  refine wpc_eseq restoreAndClearLocked_spec (fun _ => .restoring) ?_ fun _ _ _ _ => nofun
  intro _ t' _ hr
  refine wpc_mono (fun _ he => .establishing hr he) ?_ (establish_spec _ _)
  intro r t _ h id hid
  obtain ⟨rfl, rfl⟩ := h id hid
  exact ⟨rfl, t', hr, rfl⟩

/-! ## Recording names -/

/-- The list has been replaced by the merged one. -/
def World.record (w : World) (g : Str) (names : List Str) : World :=
  { w with disk := w.disk.write .cleanupList (writeCleanupEntries (insertNames g names w.disk.entries).1) }

/-- **`append_cleanup`**: the list is replaced in one step, by its entries and the new ones. -/
theorem appendCleanup_spec (names : List Str) :
    (appendCleanup names).wpc (handle may)
      (fun t => t = w ∨ ∃ g, w.disk.current = some g ∧ t = w.record g names)
      (fun r t => r = .ok () → ∃ g, w.disk.current = some g ∧
        (t = w ∧ (insertNames g names w.disk.entries).1 = w.disk.entries ∨ t = w.record g names)) w := by
  refine wpc_locked (Or.inl rfl) ?_ fun _ => nofun
  unfold appendLocked
  simp only [ebind_eq]
  refine wpc_eseq readGeneration_spec (fun _ h => Or.inl h.symm) ?_ fun _ _ _ _ => nofun
  rintro current _ rfl h
  obtain rfl := h current rfl
  cases hg : w.disk.current with
  | none => exact ⟨Or.inl rfl, nofun⟩
  | some g =>
    dsimp only
    refine wpc_ebind (wpc_readFile (Or.inl rfl) ?_ fun _ => nofun)
    dsimp only
    split
    · refine wpc_writeFile (Or.inl rfl) ⟨Or.inr ⟨g, rfl, rfl⟩, fun _ => ⟨g, rfl, Or.inr rfl⟩⟩ fun _ => nofun
    · rename_i h
      exact ⟨Or.inl rfl, fun _ => ⟨g, rfl, Or.inl ⟨rfl, insertNames_unchanged (Bool.not_eq_true _ ▸ h)⟩⟩⟩

theorem entries_record {g : Str} {names : List Str} (hg : TagOk g) :
    (w.record g names).disk.entries = (insertNames g names w.disk.entries).1 := by
  have hf : (w.record g names).disk .cleanupList =
      some (writeCleanupEntries (insertNames g names w.disk.entries).1) := by simp [World.record]
  rw [Disk.entries, hf]
  exact readCleanupEntries_writeCleanupEntries (validEntries_insertNames hg (validEntries_read _))

theorem disk_record {g : Str} {names : List Str} {f : File} (h : f ≠ .cleanupList) :
    (w.record g names).disk f = w.disk f := Disk.write_ne h

end

end Wsmr
