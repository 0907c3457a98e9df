import Wsmr.Units.Plan

/-!
# Applying plans (`src/units/generate.rs`)

`apply_generate` makes the planned writes, then the planned removals, and saves the manifest; when a write
or a removal fails, those before it are taken back (`rollback`). `apply_removal` is the same without
writes, and forgets what the plan has skipped. Both are one batch (`runBatch`). A batch ends in one of two
ways: `runBatch_stopped` when a change fails, `runBatch_through` when they all work.
-/

namespace Wsmr

open Text Effects UndoLog

/-- A step that has been applied, and what was there before. -/
structure Applied where
  relname : Str
  previous : Option Str

structure GenOutcome where
  changed : Bool
  written : List Str
  removed : List Str
  deriving DecidableEq

def conflictError (path : Str) (conflicts : List Conflict) : Error :=
  .generationConflict ("refusing to touch ".toList ++ decimal conflicts.length ++ " path(s) in ".toList ++ path ++
    " that are not verifiably owned by wsmr:\n".toList ++
    conflicts.flatMap (fun c => "  ".toList ++ c.relname ++ " — ".toList ++ c.reason ++ "\n".toList) ++
    ("Nothing was written. If this belongs to another session manager (e.g. uwsm), " ++
      "leave it running; otherwise inspect and remove it manually before retrying.").toList)

/-- `std::fs::read_to_string(..).ok()` -/
def fsRead (relname : Str) : FsIo (Option Str) := Prog.op (S := fsOps) (.read relname) fun t => .ret (.ok t)

def fsPut (restoring : Bool) (relname : Str) (content : Option Str) : FsIo Bool :=
  Prog.op (S := fsOps) (.put restoring relname content) fun ok => .ret (.ok ok)

/-- Put back what was there before, last step first; failures are ignored. -/
def rollback (applied : List Applied) : FsIo PUnit :=
  forM applied.reverse fun a => do
    let _ ← fsPut true a.relname a.previous
    return ⟨⟩

/-- The variables of the loops. -/
structure Batch where
  manifest : Manifest
  applied : List Applied
  out : GenOutcome

def Batch.start (manifest : Manifest) : Batch := ⟨manifest, [], ⟨false, [], []⟩⟩

def Manifest.track (m : Manifest) (c : Str × Option Str) : Manifest :=
  match c.2 with
  | some content => m.record c.1 content
  | none => m.forget c.1

/-- What the loops note about a step that has worked. -/
def Batch.push (b : Batch) (c : Str × Option Str) (previous : Option Str) : Batch where
  manifest := b.manifest.track c
  applied := b.applied ++ [⟨c.1, previous⟩]
  out :=
    { changed := true
      written := if c.2.isSome then b.out.written ++ [c.1] else b.out.written
      removed := if c.2.isSome then b.out.removed else b.out.removed ++ [c.1] }

/-- The body of both loops. -/
def applyStep (path : Str) (b : Batch) (c : Str × Option Str) : FsIo Batch := do
  let previous ← fsRead c.1
  let ok ← fsPut false c.1 c.2
  if ok then return b.push c previous
  else do
    rollback b.applied
    throw (.io (joinPath path c.1))

def applyWrite (path : Str) (b : Batch) (w : PlannedWrite) : FsIo Batch := applyStep path b (w.relname, some w.content)

def applyRemove (path : Str) (b : Batch) (r : PlannedRemove) : FsIo Batch := applyStep path b (r.relname, none)

/-- What comes after the loops. -/
def finish (path : Str) (out : GenOutcome) (manifest : Manifest) (save : Bool) : FsIo GenOutcome :=
  if save then do
    manifest.save path
    return out
  else return out

def applyGenerate (path : Str) (plan : GenerationPlan) : FsIo GenOutcome :=
  if plan.conflicts.isEmpty then do
    let b ← plan.writes.foldlM (applyWrite path) (.start plan.manifest)
    let b ← plan.removes.foldlM (applyRemove path) b
    finish path b.out b.manifest b.out.changed
  else throw (conflictError path plan.conflicts)

def applyRemoval (path : Str) (plan : RemovalPlan) : FsIo GenOutcome := do
  let b ← plan.removes.foldlM (applyRemove path) (.start plan.manifest)
  let manifest := plan.skipped.foldl (fun m s => m.forget s.relname) b.manifest
  finish path b.out manifest (b.out.changed || !plan.skipped.isEmpty)

/-! ## Both are one batch -/

/-- Make the changes, forget further names, save the manifest if that makes a difference. -/
def runBatch (path : Str) (manifest : Manifest) (cs : List (Str × Option Str)) (forgotten : List Str) :
    FsIo GenOutcome := do
  let b ← cs.foldlM (applyStep path) (.start manifest)
  finish path b.out (forgotten.foldl Manifest.forget b.manifest) (b.out.changed || !forgotten.isEmpty)

theorem applyGenerate_eq (path : Str) (plan : GenerationPlan) : applyGenerate path plan =
    if plan.conflicts.isEmpty then runBatch path plan.manifest (changesOf plan.writes plan.removes) []
    else throw (conflictError path plan.conflicts) := by
  unfold applyGenerate runBatch changesOf
  simp only [List.foldlM_append, List.foldlM_map, bind_assoc, List.foldl_nil, List.isEmpty_nil, Bool.not_true,
    Bool.or_false]
  rfl

theorem applyRemoval_eq (path : Str) (plan : RemovalPlan) : applyRemoval path plan =
    runBatch path plan.manifest (changesOf [] plan.removes) (plan.skipped.map Conflict.relname) := by
  unfold applyRemoval runBatch changesOf
  simp only [List.map_nil, List.nil_append, List.foldlM_map, List.foldl_map, List.isEmpty_map]
  rfl

/-! ## Runs -/

variable {faults : FsFaults} {dir : Rung} {path : Str}

@[simp] theorem runFs_pure {α : Type} (a : α) : runFs faults (pure a : FsIo α) dir = (.ok a, dir) := rfl

@[simp] theorem runFs_throw {α : Type} (e : Error) : runFs faults (throw e : FsIo α) dir = (.error e, dir) := rfl

@[simp] theorem runFs_read (n : Str) : runFs faults (fsRead n) dir = (.ok (textOf (dir.files n)), dir) := rfl

theorem runFs_put (restoring : Bool) (n : Str) (content : Option Str) : runFs faults (fsPut restoring n content) dir =
    if bif restoring then faults.restore n else faults.change n then (.ok false, dir)
    else (.ok true, dir.put restoring n content) := by
  show ((Except.ok (fsHandle faults (.put restoring n content) dir).1,
      (fsHandle faults (.put restoring n content) dir).2) :
    Except Error Bool × Rung) = _
  unfold fsHandle
  dsimp only
  split <;> rfl

theorem runFs_save (m : Manifest) : runFs faults (m.save path) dir =
    if faults.change manifestName then (.error (.io (joinPath path manifestName)), dir)
    else (.ok (), dir.put false manifestName (some m.render)) := by
  cases hf : faults.change manifestName <;>
    simp [runFs, Manifest.save, Prog.run, fsHandle, hf]

/-- The steps a rollback takes back: those whose restoring works. -/
def restored (faults : FsFaults) (applied : List Applied) : List (Str × Option Str) :=
  (applied.reverse.filter fun a => !faults.restore a.relname).map fun a => (a.relname, a.previous)

theorem runFs_forM_restore : ∀ {as : List Applied} {dir : Rung},
    runFs faults (forM as fun a => do
      let _ ← fsPut true a.relname a.previous
      return ⟨⟩) dir =
      (.ok ⟨⟩, dir.putAll true ((as.filter fun a => !faults.restore a.relname).map fun a => (a.relname, a.previous)))
  | [], _ => rfl
  | a :: as, dir => by
    rw [List.forM_cons, runFs_bind, runFs_bind, runFs_put]
    cases hf : faults.restore a.relname
    · simp only [cond_true, Bool.false_eq_true, if_false, andThen, runFs_pure]
      rw [runFs_forM_restore]
      simp [hf, Rung.putAll]
    · simp only [cond_true, if_true, andThen, runFs_pure]
      rw [runFs_forM_restore]
      simp [hf]

theorem runFs_rollback (applied : List Applied) :
    runFs faults (rollback applied) dir = (.ok ⟨⟩, dir.putAll true (restored faults applied)) :=
  runFs_forM_restore

/-- **One step of a batch.** -/
theorem runFs_applyStep (b : Batch) (c : Str × Option Str) : runFs faults (applyStep path b c) dir =
    if faults.change c.1 then
      (.error (.io (joinPath path c.1)), dir.putAll true (restored faults b.applied))
    else (.ok (b.push c (textOf (dir.files c.1))), dir.put false c.1 c.2) := by
  unfold applyStep
  rw [runFs_bind, runFs_read]
  simp only [andThen]
  rw [runFs_bind, runFs_put]
  cases hf : faults.change c.1
  · simp [andThen]
  · simp only [cond_false, if_true, andThen, Bool.false_eq_true, if_false]
    rw [runFs_bind, runFs_rollback]
    rfl

/-- The loop variables after steps that have all worked. -/
def Batch.pushAll : List (Str × Option Str) → Rung → Batch → Batch
  | [], _, b => b
  | c :: cs, dir, b => Batch.pushAll cs (dir.put false c.1 c.2) (b.push c (textOf (dir.files c.1)))

/-- **A run of steps that all work.** -/
theorem runFs_foldlM_applyStep : ∀ {cs : List (Str × Option Str)} {b : Batch} {dir : Rung},
    (∀ c ∈ cs, faults.change c.1 = false) →
    runFs faults (cs.foldlM (applyStep path) b) dir = (.ok (b.pushAll cs dir), dir.putAll false cs)
  | [], _, _, _ => rfl
  | c :: cs, b, dir, h => by
    rw [List.forall_mem_cons] at h
    rw [List.foldlM_cons, runFs_bind, runFs_applyStep, h.1]
    simp only [Bool.false_eq_true, if_false, andThen]
    rw [runFs_foldlM_applyStep h.2]
    rfl

/-- **A run that a failing step stops**: what was done before is taken back. -/
theorem runFs_foldlM_applyStep_stopped {done rest : List (Str × Option Str)} {c : Str × Option Str} {b : Batch}
    (h : ∀ d ∈ done, faults.change d.1 = false) (hc : faults.change c.1 = true) :
    runFs faults ((done ++ c :: rest).foldlM (applyStep path) b) dir =
      (.error (.io (joinPath path c.1)),
        (dir.putAll false done).putAll true (restored faults (b.pushAll done dir).applied)) := by
  rw [List.foldlM_append, runFs_bind, runFs_foldlM_applyStep h]
  simp only [andThen]
  rw [List.foldlM_cons, runFs_bind, runFs_applyStep, hc]
  rfl

/-! ## What the loops note -/

theorem pushAll_manifest : ∀ {cs : List (Str × Option Str)} {dir : Rung} {b : Batch},
    (b.pushAll cs dir).manifest = cs.foldl Manifest.track b.manifest
  | [], _, _ => rfl
  | _ :: cs, _, _ => @pushAll_manifest cs _ _

theorem pushAll_changed : ∀ {cs : List (Str × Option Str)} {dir : Rung} {b : Batch},
    (b.pushAll cs dir).out.changed = (b.out.changed || !cs.isEmpty)
  | [], _, _ => by simp [Batch.pushAll]
  | _ :: cs, _, _ => by
    rw [Batch.pushAll, @pushAll_changed cs]
    simp [Batch.push]

/-- The notes in the order in which a rollback goes through them. -/
def logOf (applied : List Applied) : List (Change Str FileData) :=
  Rung.toChanges (applied.map fun a => (a.relname, a.previous)).reverse

theorem logOf_push {b : Batch} {c : Str × Option Str} (h : dir.Readable c.1) :
    logOf (b.push c (textOf (dir.files c.1))).applied = (c.1, dir.files c.1) :: logOf b.applied := by
  simp only [logOf, Batch.push, Rung.toChanges, List.map_append, List.reverse_append, List.map_reverse, List.map_cons,
    List.map_nil, List.reverse_cons, List.reverse_nil, List.nil_append, List.cons_append]
  rw [Rung.map_textOf h]

/-- **The notes are the undo log** of the changes, when every file can be read. -/
theorem logOf_pushAll : ∀ {cs : List (Str × Option Str)} {dir : Rung} {b : Batch}, (∀ c ∈ cs, dir.Readable c.1) →
    logOf (b.pushAll cs dir).applied = undo (Rung.toChanges cs) dir.files (logOf b.applied)
  | [], _, _, _ => rfl
  | c :: cs, dir, b, h => by
    rw [List.forall_mem_cons] at h
    rw [Batch.pushAll, logOf_pushAll fun d hd => Rung.readable_put (h.2 d hd), logOf_push h.1]
    rfl

theorem files_restored (applied : List Applied) : Rung.toChanges (restored faults applied) =
    (logOf applied).filter fun c => !faults.restore c.1 := by
  simp only [restored, logOf, Rung.toChanges, List.map_reverse, List.filter_reverse, List.map_map]
  rw [List.filter_map]
  rfl

/-! ## Batches -/

/-- The manifest that a batch saves. -/
def Manifest.after (m : Manifest) (cs : List (Str × Option Str)) (forgotten : List Str) : Manifest :=
  forgotten.foldl Manifest.forget (cs.foldl Manifest.track m)

variable {m : Manifest} {cs : List (Str × Option Str)} {forgotten : List Str}

theorem getElem?_track (c : Str × Option Str) (k : Str) :
    (m.track c).entries[k]? = if k = c.1 then c.2.map fingerprint else m.entries[k]? := by
  obtain ⟨relname, content⟩ := c
  by_cases hk : k = relname
  · subst hk
    cases content <;> simp [Manifest.track, Manifest.record, Manifest.forget]
  · have hne : relname ≠ k := fun h => hk h.symm
    rw [if_neg hk]
    cases content with
    | none => exact TreeMap.getElem?_erase_ne hne
    | some content => exact TreeMap.getElem?_insert_ne hne

theorem getElem?_foldl_track_of_not_mem {k : Str} : ∀ {cs : List (Str × Option Str)} {m : Manifest},
    k ∉ cs.map Prod.fst → (cs.foldl Manifest.track m).entries[k]? = m.entries[k]?
  | [], _, _ => rfl
  | c :: cs, m, h => by
    simp only [List.map_cons, List.mem_cons, not_or] at h
    rw [List.foldl_cons, getElem?_foldl_track_of_not_mem h.2, getElem?_track, if_neg h.1]

theorem getElem?_foldl_track_of_mem {k : Str} {content : Option Str} : ∀ {cs : List (Str × Option Str)} {m : Manifest},
    (cs.map Prod.fst).Nodup → (k, content) ∈ cs →
    (cs.foldl Manifest.track m).entries[k]? = content.map fingerprint
  | c :: cs, m, hn, h => by
    simp only [List.map_cons, List.nodup_cons] at hn
    rw [List.foldl_cons]
    rcases List.mem_cons.1 h with rfl | h
    · rw [getElem?_foldl_track_of_not_mem hn.1, getElem?_track, if_pos rfl]
    · exact getElem?_foldl_track_of_mem hn.2 h

theorem getElem?_foldl_forget {k : Str} {fp : UInt64} : ∀ {forgotten : List Str} {m : Manifest},
    (forgotten.foldl Manifest.forget m).entries[k]? = some fp → m.entries[k]? = some fp
  | [], _, h => h
  | n :: forgotten, m, h => by
    have hm := @getElem?_foldl_forget _ _ forgotten _ h
    by_cases hk : n = k
    · subst hk
      simp [Manifest.forget] at hm
    · rwa [Manifest.forget, TreeMap.getElem?_erase_ne hk] at hm

/-- What the saved manifest holds was there before or has been written by the batch. -/
theorem of_getElem?_after {k : Str} {fp : UInt64} (hn : (cs.map Prod.fst).Nodup)
    (h : (m.after cs forgotten).entries[k]? = some fp) :
    m.entries[k]? = some fp ∨ ∃ content, (k, some content) ∈ cs ∧ fp = fingerprint content := by
  have h := getElem?_foldl_forget h
  by_cases hk : k ∈ cs.map Prod.fst
  · obtain ⟨⟨k', content⟩, hc, rfl⟩ := List.mem_map.1 hk
    rw [getElem?_foldl_track_of_mem hn hc] at h
    obtain ⟨content, rfl, rfl⟩ := Option.map_eq_some_iff.1 h
    exact Or.inr ⟨content, hc, rfl⟩
  · rw [getElem?_foldl_track_of_not_mem hk] at h
    exact Or.inl h

/-- **Every change works.** -/
theorem runBatch_through (h : ∀ c ∈ cs, faults.change c.1 = false) :
    runFs faults (runBatch path m cs forgotten) dir =
      if cs.isEmpty && forgotten.isEmpty then (.ok ((Batch.start m).pushAll cs dir).out, dir.putAll false cs)
      else if faults.change manifestName then (.error (.io (joinPath path manifestName)), dir.putAll false cs)
      else (.ok ((Batch.start m).pushAll cs dir).out,
        (dir.putAll false cs).put false manifestName (some (m.after cs forgotten).render)) := by
  have hsave : (((Batch.start m).pushAll cs dir).out.changed || !forgotten.isEmpty) =
      !(cs.isEmpty && forgotten.isEmpty) := by
    rw [pushAll_changed]
    simp [Batch.start, Bool.not_and]
  unfold runBatch
  rw [runFs_bind, runFs_foldlM_applyStep h]
  simp only [andThen, hsave, finish, pushAll_manifest]
  cases hnone : cs.isEmpty && forgotten.isEmpty
  · simp only [Bool.not_false, if_true, Bool.false_eq_true, if_false]
    rw [runFs_bind, runFs_save]
    cases faults.change manifestName <;> rfl
  · rfl

variable (dir path m forgotten) in
/-- **Some change fails**: the steps before the first that does are made and taken back. -/
theorem runBatch_stopped (h : ∃ c ∈ cs, faults.change c.1 = true) : ∃ done rest, ∃ c : Str × Option Str,
    cs = done ++ c :: rest ∧ (∀ d ∈ done, faults.change d.1 = false) ∧ faults.change c.1 = true ∧
    runFs faults (runBatch path m cs forgotten) dir =
      (.error (.io (joinPath path c.1)),
        (dir.putAll false done).putAll true (restored faults ((Batch.start m).pushAll done dir).applied)) := by
  obtain ⟨c, hc, hf⟩ := h
  have hfind : (cs.find? fun c => faults.change c.1).isSome := List.find?_isSome.2 ⟨c, hc, hf⟩
  obtain ⟨c, hc⟩ := Option.isSome_iff_exists.1 hfind
  obtain ⟨hf, done, rest, rfl, hdone⟩ := List.find?_eq_some_iff_append.1 hc
  have hdone : ∀ d ∈ done, faults.change d.1 = false := fun d hd => by simpa using hdone d hd
  refine ⟨done, rest, c, rfl, hdone, hf, ?_⟩
  unfold runBatch
  rw [runFs_bind, runFs_foldlM_applyStep_stopped hdone hf]
  rfl

/-- The files after a batch that a failing change has stopped. -/
theorem files_stopped {done : List (Str × Option Str)} (hr : ∀ c ∈ done, dir.Readable c.1) :
    ((dir.putAll false done).putAll true (restored faults ((Batch.start m).pushAll done dir).applied)).files =
      apply ((undo (Rung.toChanges done) dir.files []).filter fun c => !faults.restore c.1)
        (apply (Rung.toChanges done) dir.files) := by
  rw [Rung.files_putAll, Rung.files_putAll, files_restored, logOf_pushAll hr]
  rfl

theorem within_stopped {done rest : List (Str × Option Str)} (hr : ∀ c ∈ done, dir.Readable c.1)
    (hn : ((done ++ rest).map Prod.fst).Nodup) : Within (Rung.toChanges (done ++ rest)) dir.files
      ((dir.putAll false done).putAll true (restored faults ((Batch.start m).pushAll done dir).applied)).files := by
  have hdone : ((Rung.toChanges done).map Prod.fst).Nodup := by
    rw [Rung.keys_toChanges]
    rw [List.map_append] at hn
    exact (List.nodup_append.1 hn).1
  have hsub : Rung.toChanges done ⊆ Rung.toChanges (done ++ rest) := by
    rw [Rung.toChanges, Rung.toChanges, List.map_append]
    exact List.subset_append_left _ _
  rw [files_stopped hr]
  exact within_mono hsub (within_undo hdone fun q => !faults.restore q)

theorem within_putAll (hn : (cs.map Prod.fst).Nodup) :
    Within (Rung.toChanges cs) dir.files (dir.putAll false cs).files := by
  rw [Rung.files_putAll]
  exact within_apply (by rwa [Rung.keys_toChanges])

theorem mem_log_putAll {restoring : Bool} {c : FsChange} (hc : c ∈ dir.log) : c ∈ (dir.putAll restoring cs).log := by
  rw [Rung.log_putAll]
  exact List.mem_append_right _ hc

variable (path m forgotten) in
/-- **Rollback**: when a change fails and everything can be restored, nothing has changed. -/
theorem runBatch_stopped_files (hr : ∀ c ∈ cs, dir.Readable c.1) (hrestore : ∀ q, faults.restore q = false)
    (h : ∃ c ∈ cs, faults.change c.1 = true) :
    (runFs faults (runBatch path m cs forgotten) dir).2.files = dir.files := by
  obtain ⟨done, rest, c, rfl, -, -, hrun⟩ := runBatch_stopped dir path m forgotten h
  rw [hrun]
  show ((dir.putAll false done).putAll true _).files = _
  rw [files_stopped fun d hd => hr d (List.mem_append_left _ hd)]
  simp only [hrestore, Bool.not_false, List.filter_true]
  exact apply_undo

variable (faults path m forgotten) in
/-- **Whatever fails**, a batch leaves at each path what was there or what it was to put there; the manifest
is as it was, or what the batch saves after all its changes. -/
theorem runBatch_within (hr : ∀ c ∈ cs, dir.Readable c.1) (hn : (cs.map Prod.fst).Nodup)
    (hm : manifestName ∉ cs.map Prod.fst) :
    (∀ q, q ≠ manifestName → (runFs faults (runBatch path m cs forgotten) dir).2.files q = dir.files q ∨
      (q, (runFs faults (runBatch path m cs forgotten) dir).2.files q) ∈ Rung.toChanges cs) ∧
    ((runFs faults (runBatch path m cs forgotten) dir).2.files manifestName = dir.files manifestName ∨
      (runFs faults (runBatch path m cs forgotten) dir).2.files manifestName =
          some (.text (m.after cs forgotten).render) ∧
        ∀ q content, (q, some content) ∈ cs →
          ⟨false, q, some content⟩ ∈ (runFs faults (runBatch path m cs forgotten) dir).2.log) ∧
    ∀ c ∈ dir.log, c ∈ (runFs faults (runBatch path m cs forgotten) dir).2.log := by
  have hkeys : manifestName ∉ (Rung.toChanges cs).map Prod.fst := by rwa [Rung.keys_toChanges]
  by_cases hstop : ∃ c ∈ cs, faults.change c.1 = true
  · obtain ⟨done, rest, c, rfl, -, -, hrun⟩ := runBatch_stopped dir path m forgotten hstop
    rw [hrun]
    have hwithin := @within_stopped faults dir m done (c :: rest) (fun d hd => hr d (List.mem_append_left _ hd)) hn
    exact ⟨fun q _ => hwithin q, Or.inl (hwithin.of_not_mem hkeys), fun c hc => mem_log_putAll (mem_log_putAll hc)⟩
  · have hthrough : ∀ c ∈ cs, faults.change c.1 = false := by simpa using hstop
    have hwithin := @within_putAll dir cs hn
    rw [runBatch_through hthrough]
    split
    · exact ⟨fun q _ => hwithin q, Or.inl (hwithin.of_not_mem hkeys), fun c hc => mem_log_putAll hc⟩
    · split
      · exact ⟨fun q _ => hwithin q, Or.inl (hwithin.of_not_mem hkeys), fun c hc => mem_log_putAll hc⟩
      · refine ⟨fun q hq => ?_, Or.inr ⟨Rung.files_put_self _ _ _ _, fun q content hc => ?_⟩, fun c hc => ?_⟩
        · rw [Rung.files_put_of_ne hq]
          exact hwithin q
        · refine List.mem_cons_of_mem _ ?_
          rw [Rung.log_putAll]
          exact List.mem_append_left _ (List.mem_reverse.2 (List.mem_map.2 ⟨_, hc, rfl⟩))
        · exact List.mem_cons_of_mem _ (mem_log_putAll hc)

end Wsmr
