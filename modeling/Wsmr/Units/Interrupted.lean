import Wsmr.Units.Pristine

/-!
# Generations and removals that are killed

Both change the files one by one and save the manifest last. Wherever the process is killed, and whatever has
failed before, every file is as it was or as planned, and the manifest is as it was, or that of the whole
batch with the whole batch in place (`BatchLeft`, `left_of_runBatch`). Kills therefore do no harm to ownership
(`ownership_killed`), and the same generation again ends where the killed one would have
(`generation_resumed`).

What the killed one has written by then is on no record, though. The next generation keeps it, as it has
the content that is wanted; so it never gets on record, and wsmr refuses to replace it for good
(`interrupted_write_orphaned`).
-/

namespace Wsmr

open Text Effects UndoLog

/-- What a program leaves that is killed after `n` operations on files, or has ended before that. -/
def stopFs {α : Type} (faults : FsFaults) (n : Nat) (p : FsIo α) (dir : Rung) : Rung :=
  Prog.stop (S := fsOps) (fun _ : Unit => fsHandle faults) n p [] dir

/-- A call that is killed. -/
def Call.killed (n : Nat) : Call → Rung → Rung
  | .generate ctx dropins tweaksEnabled reclaimStale faults, dir =>
    match planGenerate dir ctx dropins.toDropinInput tweaksEnabled reclaimStale with
    | .ok plan => stopFs faults n (applyGenerate dir.path plan) dir
    | .error _ => dir
  | .removeAll marks faults, dir =>
    match planRemoveAll dir marks with
    | .ok plan => stopFs faults n (applyRemoval dir.path plan) dir
    | .error _ => dir

/-! ## One batch -/

/-- `Prog.wpc` of a program on files, each operation of which may fail or not. -/
abbrev fsWpc {α : Type} (C : Rung → Prop) (Q : Except Error α → Rung → Prop) (p : FsIo α) (d : Rung) : Prop :=
  Prog.wpc (S := fsOps) fsHandle C Q p d

/-- What a batch leaves in `d`, wherever it stops. -/
structure BatchLeft (dir : Rung) (m : Manifest) (cs : List (Str × Option Str)) (forgotten : List Str) (d : Rung) :
    Prop where
  files : ∀ q, q ≠ manifestName → d.files q = dir.files q ∨ (q, d.files q) ∈ Rung.toChanges cs
  manifest : d.files manifestName = dir.files manifestName ∨
    (cs.isEmpty && forgotten.isEmpty) = false ∧ d.files manifestName = some (.text (m.after cs forgotten).render) ∧
      ∀ c ∈ cs, d.files c.1 = c.2.map .text ∧ ⟨false, c.1, c.2⟩ ∈ d.log
  log : ∀ c ∈ dir.log, c ∈ d.log

/-- As `BatchLeft`, before the manifest is saved. -/
structure BatchGoing (dir : Rung) (cs : List (Str × Option Str)) (d : Rung) : Prop where
  within : Within (Rung.toChanges cs) dir.files d.files
  log : ∀ c ∈ dir.log, c ∈ d.log

/-- The loop after the changes `done`, with `rest` to come. -/
structure BatchLoop (dir : Rung) (m : Manifest) (done rest : List (Str × Option Str)) (b : Batch) (d : Rung) :
    Prop where
  made : ∀ c ∈ done, d.files c.1 = c.2.map .text ∧ ⟨false, c.1, c.2⟩ ∈ d.log
  todo : ∀ c ∈ rest, d.files c.1 = dir.files c.1
  noted : ∀ a ∈ b.applied, a.previous.map .text = dir.files a.relname
  manifest : b.manifest = done.foldl Manifest.track m
  changed : b.out.changed = !done.isEmpty

section
variable {dir d : Rung} {path : Str} {m : Manifest} {b : Batch} {c : Str × Option Str}
  {cs done rest : List (Str × Option Str)} {forgotten : List Str}

theorem BatchGoing.left (h : BatchGoing dir cs d) (hm : manifestName ∉ cs.map Prod.fst) :
    BatchLeft dir m cs forgotten d where
  files q _ := h.within q
  manifest := Or.inl (h.within.of_not_mem (by rwa [Rung.keys_toChanges]))
  log := h.log

theorem going_self : BatchGoing dir cs dir := ⟨fun _ => Or.inl rfl, fun _ h => h⟩

/-- A planned change, or one taken back. -/
theorem BatchGoing.put (h : BatchGoing dir cs d) {restoring : Bool} {q : Str} {content : Option Str}
    (hc : content.map .text = dir.files q ∨ (q, content) ∈ cs) : BatchGoing dir cs (d.put restoring q content) where
  within k := by
    by_cases hk : k = q
    · subst hk
      rw [Rung.files_put_self]
      refine hc.imp_right fun hmem => ?_
      exact List.mem_map.2 ⟨(k, content), hmem, rfl⟩
    · rw [Rung.files_put_of_ne hk]
      exact h.within k
  log c hc := List.mem_cons_of_mem _ (h.log c hc)

variable {α : Type} {C : Rung → Prop} {Q : Except Error α → Rung → Prop}

theorem wpc_read {n : Str} {f : Option Str → FsIo α} (hC : C d)
    (h : fsWpc C Q (f (textOf (d.files n))) d) :
    fsWpc C Q (fsRead n >>= f) d := by
  rw [Prog.ebind_eq]
  exact ⟨hC, fun _ => h⟩

theorem wpc_put {restoring : Bool} {n : Str} {content : Option Str} {f : Bool → FsIo α} (hC : C d)
    (hfail : fsWpc C Q (f false) d)
    (hok : fsWpc C Q (f true) (d.put restoring n content)) :
    fsWpc C Q (fsPut restoring n content >>= f) d := by
  rw [Prog.ebind_eq]
  refine ⟨hC, fun _ => ?_⟩
  simp only [fsHandle]
  split
  · exact hfail
  · exact hok

/-- A rollback takes back what the batch has noted. -/
theorem wpc_rollback {applied : List Applied} (hg : BatchGoing dir cs d)
    (hnoted : ∀ a ∈ applied, a.previous.map .text = dir.files a.relname) :
    fsWpc (BatchGoing dir cs) (fun _ _ => True) (rollback applied) d := by
  have hloop : ∀ (as : List Applied) (d : Rung), BatchGoing dir cs d →
      (∀ a ∈ as, a.previous.map .text = dir.files a.relname) →
      fsWpc (BatchGoing dir cs) (fun _ _ => True)
        (forM as fun a => do
          let _ ← fsPut true a.relname a.previous
          return ⟨⟩) d := by
    intro as
    induction as with
    | nil => exact fun d hg _ => ⟨hg, trivial⟩
    | cons a as ih =>
      intro d hg h
      rw [List.forall_mem_cons] at h
      have hput : BatchGoing dir cs (d.put true a.relname a.previous) := hg.put (Or.inl h.1)
      rw [List.forM_cons, bind_assoc]
      refine wpc_put hg ?_ ?_
      · rw [pure_bind]
        exact ih d hg h.2
      · rw [pure_bind]
        exact ih _ hput h.2
  exact hloop applied.reverse d hg fun a ha => hnoted a (List.mem_reverse.1 ha)

theorem BatchLoop.push (hl : BatchLoop dir m done (c :: rest) b d) (hn : ((done ++ c :: rest).map Prod.fst).Nodup)
    (hr : dir.Readable c.1) :
    BatchLoop dir m (done ++ [c]) rest (b.push c (textOf (d.files c.1))) (d.put false c.1 c.2) := by
  rw [List.map_append, List.map_cons, List.nodup_append, List.nodup_cons] at hn
  obtain ⟨-, ⟨hrest, -⟩, hdone⟩ := hn
  have hsame := hl.todo c List.mem_cons_self
  refine ⟨fun c' hc' => ?_, fun c' hc' => ?_, fun a ha => ?_, ?_, ?_⟩
  · rcases List.mem_append.1 hc' with hc' | hc'
    · have hne : c'.1 ≠ c.1 := hdone _ (List.mem_map_of_mem hc') _ List.mem_cons_self
      rw [Rung.files_put_of_ne hne]
      exact ⟨(hl.made c' hc').1, List.mem_cons_of_mem _ (hl.made c' hc').2⟩
    · obtain rfl := List.mem_singleton.1 hc'
      exact ⟨Rung.files_put_self _ _ _ _, List.mem_cons_self⟩
  · have hne : c'.1 ≠ c.1 := fun he => hrest (he ▸ List.mem_map_of_mem hc')
    rw [Rung.files_put_of_ne hne]
    exact hl.todo c' (List.mem_cons_of_mem _ hc')
  · rcases List.mem_append.1 ha with ha | ha
    · exact hl.noted a ha
    · obtain rfl := List.mem_singleton.1 ha
      rw [hsame]
      exact Rung.map_textOf hr
  · rw [List.foldl_append, ← hl.manifest]
    rfl
  · simp [Batch.push]

/-- **One step of a batch**, wherever it is killed. -/
theorem wpc_applyStep (hg : BatchGoing dir (done ++ c :: rest) d) (hl : BatchLoop dir m done (c :: rest) b d)
    (hn : ((done ++ c :: rest).map Prod.fst).Nodup) (hr : dir.Readable c.1) :
    fsWpc (BatchGoing dir (done ++ c :: rest))
      (fun r t => ∀ b', r = .ok b' → BatchLoop dir m (done ++ [c]) rest b' t) (applyStep path b c) d := by
  unfold applyStep
  refine wpc_read hg (wpc_put hg ?_ ?_)
  · rw [if_neg Bool.false_ne_true, Prog.ebind_eq]
    refine Prog.wpc_eseq (wpc_rollback hg hl.noted) (fun _ h => h) (fun _ t ht _ => ⟨ht, ?_⟩) fun _ t _ _ => ?_
    · rintro b' ⟨⟩
    · rintro b' ⟨⟩
  · have hput : BatchGoing dir (done ++ c :: rest) (d.put false c.1 c.2) := hg.put (Or.inr (by simp))
    rw [if_pos rfl]
    refine ⟨hput, fun b' hb => ?_⟩
    obtain rfl := Except.ok.inj hb
    exact hl.push hn hr

/-- **The loop**, wherever it is killed. -/
theorem wpc_foldlM_applyStep (hn : ((done ++ rest).map Prod.fst).Nodup) (hr : ∀ c ∈ done ++ rest, dir.Readable c.1)
    (hg : BatchGoing dir (done ++ rest) d) (hl : BatchLoop dir m done rest b d) :
    fsWpc (BatchGoing dir (done ++ rest)) (fun r t => ∀ b', r = .ok b' → BatchLoop dir m (done ++ rest) [] b' t)
      (rest.foldlM (applyStep path) b) d := by
  induction rest generalizing done b d with
  | nil =>
    refine ⟨hg, fun b' hb => ?_⟩
    obtain rfl := Except.ok.inj hb
    rw [List.append_nil]
    exact hl
  | cons c rest ih =>
    rw [List.foldlM_cons, Prog.ebind_eq]
    refine Prog.wpc_eseq (wpc_applyStep hg hl hn (hr c (by simp))) (fun _ h => h) (fun b' t ht hb => ?_)
      fun e t _ _ => ?_
    · rw [List.append_cons] at hn hr ht ⊢
      exact ih hn hr ht (hb b' rfl)
    · rintro b' ⟨⟩

/-- **A batch**, wherever it is killed. -/
theorem wpc_runBatch (hr : ∀ c ∈ cs, dir.Readable c.1) (hn : (cs.map Prod.fst).Nodup)
    (hm : manifestName ∉ cs.map Prod.fst) : fsWpc (BatchLeft dir m cs forgotten)
      (fun _ _ => True) (runBatch path m cs forgotten) dir := by
  have hstart : BatchLoop dir m [] cs (.start m) dir :=
    ⟨fun _ h => absurd h (by simp), fun _ _ => rfl, fun _ h => absurd h (by simp [Batch.start]), rfl, rfl⟩
  have hloop := @wpc_foldlM_applyStep dir dir path m (.start m) [] cs hn hr going_self hstart
  unfold runBatch
  rw [Prog.ebind_eq]
  refine Prog.wpc_eseq hloop
    (fun t ht => ht.left hm) (fun b t ht hb => ?_) fun _ _ _ _ => trivial
  have hl := hb b rfl
  have hleft : BatchLeft dir m cs forgotten t := ht.left hm
  unfold finish
  split
  · -- every change is made: the manifest is all that is missing
    rename_i hsave
    have hsome : (cs.isEmpty && forgotten.isEmpty) = false := by
      rw [hl.changed] at hsave
      simpa [← not_and_or] using hsave
    have hsaved : BatchLeft dir m cs forgotten (t.put false manifestName (some (m.after cs forgotten).render)) := by
      refine ⟨fun q hq => ?_, Or.inr ⟨hsome, Rung.files_put_self _ _ _ _, fun c hc => ?_⟩, fun c hc => ?_⟩
      · rw [Rung.files_put_of_ne hq]
        exact ht.within q
      · have hne : c.1 ≠ manifestName := fun he => hm (he ▸ List.mem_map_of_mem hc)
        rw [Rung.files_put_of_ne hne]
        exact ⟨(hl.made c hc).1, List.mem_cons_of_mem _ (hl.made c hc).2⟩
      · exact List.mem_cons_of_mem _ (ht.log c hc)
    have hafter : forgotten.foldl Manifest.forget b.manifest = m.after cs forgotten := by
      rw [hl.manifest]
      rfl
    rw [hafter, Prog.ebind_eq]
    refine ⟨hleft, fun _ => ?_⟩
    simp only [fsHandle]
    split
    · exact ⟨hleft, trivial⟩
    · exact ⟨hsaved, trivial⟩
  · exact ⟨hleft, trivial⟩

theorem left_of_runBatch (faults : FsFaults) (n : Nat) (hr : ∀ c ∈ cs, dir.Readable c.1)
    (hn : (cs.map Prod.fst).Nodup) (hm : manifestName ∉ cs.map Prod.fst) :
    BatchLeft dir m cs forgotten (stopFs faults n (runBatch path m cs forgotten) dir) :=
  Prog.stop_of_wpc n [] (Prog.wpc_const faults (wpc_runBatch hr hn hm))

end

/-! ## Whole runs -/

inductive Incident where
  /-- A call, killed after `n` operations unless it has ended before. -/
  | call (c : Call) (n : Nat)
  /-- Another program changes a file. -/
  | edit (relname : Str) (data : Option FileData) (other : relname ≠ manifestName)

def Incident.run : Incident → Rung → Rung
  | .call c n, dir => c.killed n dir
  | .edit relname data _, dir => { dir with files := Function.update dir.files relname data }

def runIncidents (incidents : List Incident) (dir : Rung) : Rung :=
  incidents.foldl (fun dir incident => incident.run dir) dir

@[simp] theorem runIncidents_nil (dir : Rung) : runIncidents [] dir = dir := rfl

/-- A call that nobody kills is among them. -/
theorem exists_killed_eq_run (c : Call) (dir : Rung) : ∃ n, c.killed n dir = c.run dir := by
  cases c with
  | generate ctx dropins tweaksEnabled reclaimStale faults =>
    unfold Call.killed Call.run
    dsimp only
    cases planGenerate dir ctx dropins.toDropinInput tweaksEnabled reclaimStale with
    | ok plan => exact Prog.exists_stop_eq_run _ _ _ _
    | error e => exact ⟨0, rfl⟩
  | removeAll marks faults =>
    unfold Call.killed Call.run
    dsimp only
    cases planRemoveAll dir marks with
    | ok plan => exact Prog.exists_stop_eq_run _ _ _ _
    | error e => exact ⟨0, rfl⟩

/-- What a call finds and does: nothing, or a batch of permitted changes. -/
theorem killed_cases {dir : Rung} (ha : Accounted dir) (c : Call) (n : Nat) : c.killed n dir = dir ∨
    ∃ m cs forgotten, Manifest.load dir = .ok m ∧ Sound dir m ∧ (cs.map Prod.fst).Nodup ∧
      (∀ ch ∈ cs, Permitted dir m c.reclaims ch ∧ c.mayChange ch.1) ∧
      BatchLeft dir m cs forgotten (c.killed n dir) := by
  obtain ⟨m, hm, hs⟩ := load_of_accounted ha
  cases c with
  | generate ctx dropins tweaksEnabled reclaimStale faults =>
    cases hplan : planGenerate dir ctx dropins.toDropinInput tweaksEnabled reclaimStale with
    | error e =>
      refine Or.inl ?_
      simp only [Call.killed, hplan]
    | ok plan =>
      obtain rfl := Except.ok.inj (hm.symm.trans (planGenerate_ok.1 hplan).1)
      have hperm := permitted_generate hplan
      have hnodup := nodup_changes_generate hplan
      simp only [Call.killed, hplan, applyGenerate_eq]
      split
      · refine Or.inr ⟨plan.manifest, changesOf plan.writes plan.removes, [], hm, hs, hnodup, fun ch hc => ?_, ?_⟩
        · refine ⟨(hperm ch hc).1, ?_⟩
          have hname := (hperm ch hc).2
          unfold Call.mayChange
          tauto
        · exact left_of_runBatch faults n (fun ch hc => (hperm ch hc).1.readable) hnodup
            (manifestName_not_mem_changes fun ch hc => (hperm ch hc).1)
      · cases n <;> exact Or.inl rfl
  | removeAll marks faults =>
    cases hplan : planRemoveAll dir marks with
    | error e =>
      refine Or.inl ?_
      simp only [Call.killed, hplan]
    | ok plan =>
      obtain rfl := Except.ok.inj (hm.symm.trans (planRemoveAll_ok.1 hplan).1)
      have hperm := permitted_removal hs hplan
      have hnodup := nodup_changes_removal hplan
      simp only [Call.killed, hplan, applyRemoval_eq]
      refine Or.inr ⟨plan.manifest, changesOf [] plan.removes, plan.skipped.map Conflict.relname, hm, hs, hnodup,
        fun ch hc => ⟨hperm ch hc, Or.inl (hperm ch hc).managed⟩, ?_⟩
      exact left_of_runBatch faults n (fun ch hc => (hperm ch hc).readable) hnodup
        (manifestName_not_mem_changes hperm)

/-- **One call**, wherever it is killed. -/
theorem killed_step {dir : Rung} (ha : Accounted dir) (c : Call) (n : Nat) :
    Respects c dir (c.killed n dir) ∧ Accounted (c.killed n dir) := by
  rcases killed_cases ha c n with h | ⟨m, cs, forgotten, hm, hs, hn, hp, hl⟩
  · rw [h]
    exact ⟨respects_refl c dir, ha⟩
  · have hmani : c.mayChange manifestName := by
      cases c with
      | generate => exact Or.inr (Or.inr (Or.inr rfl))
      | removeAll => exact Or.inr rfl
    have hsaved := hl.manifest.imp_right fun hfile =>
      And.intro hfile.2.1 fun q content hc => (hfile.2.2 (q, some content) hc).2
    exact ⟨respects_of_within hm (fun ch hc => (hp ch hc).1) (fun ch hc => (hp ch hc).2) hmani hl.files,
      accounted_of_saved ha hs hn (fun ch hc => (hp ch hc).1) hsaved hl.log⟩

theorem accounted_runIncidents {dir : Rung} (ha : Accounted dir) (incidents : List Incident) :
    Accounted (runIncidents incidents dir) := by
  induction incidents generalizing dir with
  | nil => exact ha
  | cons incident incidents ih =>
    refine ih ?_
    cases incident with
    | call c n => exact (killed_step ha c n).2
    | edit relname data other => exact accounted_step ha (.edit relname data other)

/-- **File ownership under kills**: whatever calls have been killed wherever, the manifest tells the truth, and
the next call, also killed anywhere, respects what wsmr does not own. -/
theorem ownership_killed {dir : Rung} (h : dir.files manifestName = none) (incidents : List Incident) :
    Truthful (runIncidents incidents dir) ∧ ∀ (c : Call) (n : Nat),
      Respects c (runIncidents incidents dir) (c.killed n (runIncidents incidents dir)) ∧
        Truthful (c.killed n (runIncidents incidents dir)) := by
  have ha := accounted_runIncidents (Or.inl h) incidents
  refine ⟨truthful_of_accounted ha, fun c n => ?_⟩
  obtain ⟨hrespects, hnext⟩ := killed_step ha c n
  exact ⟨hrespects, truthful_of_accounted hnext⟩

/-- A generation that may reclaim the tweak is killed, and killed again. -/
theorem ownership_killed_reclaiming : Truthful (runIncidents [.call reclaiming 7] emptyRung) ∧
    Respects reclaiming (runIncidents [.call reclaiming 7] emptyRung)
      (reclaiming.killed 3 (runIncidents [.call reclaiming 7] emptyRung)) :=
  ⟨(@ownership_killed emptyRung rfl [.call reclaiming 7]).1,
    ((@ownership_killed emptyRung rfl [.call reclaiming 7]).2 reclaiming 3).1⟩

/-! ## Going on after a kill -/

section
variable {dir : Rung} {ctx : RenderCtx} {dropins : ResolvedInput} {tweaksEnabled reclaimStale : Bool}
  {faults : FsFaults} {plan : GenerationPlan}

theorem left_of_generate (hplan : planGenerate dir ctx dropins.toDropinInput tweaksEnabled reclaimStale = .ok plan)
    (hconf : plan.conflicts = []) (n : Nat) : BatchLeft dir plan.manifest (changesOf plan.writes plan.removes) []
      ((Call.generate ctx dropins tweaksEnabled reclaimStale faults).killed n dir) := by
  have hperm := permitted_generate hplan
  simp only [Call.killed, hplan, applyGenerate_eq, hconf, List.isEmpty_nil, if_true]
  exact left_of_runBatch faults n (fun ch hc => (hperm ch hc).1.readable)
    (nodup_changes_generate hplan) (manifestName_not_mem_changes fun ch hc => (hperm ch hc).1)

/-- The generation that nothing fails and nobody kills. -/
theorem run_generate (hplan : planGenerate dir ctx dropins.toDropinInput tweaksEnabled reclaimStale = .ok plan)
    (hconf : plan.conflicts = []) : (Call.generate ctx dropins tweaksEnabled reclaimStale noFaults).run dir =
      if (changesOf plan.writes plan.removes).isEmpty then dir
      else (dir.putAll false (changesOf plan.writes plan.removes)).put false manifestName
        (some (plan.manifest.after (changesOf plan.writes plan.removes) []).render) := by
  have hthrough := @runBatch_through noFaults dir dir.path plan.manifest
    (changesOf plan.writes plan.removes) [] fun _ _ => rfl
  rw [List.isEmpty_nil, Bool.and_true] at hthrough
  simp only [Call.run, hplan, applyGenerate_eq, hconf, List.isEmpty_nil, if_true]
  refine (congrArg Prod.snd hthrough).trans ?_
  split
  · rename_i hempty
    rw [List.isEmpty_iff.1 hempty]
    rfl
  · rfl

theorem files_run_generate (hplan : planGenerate dir ctx dropins.toDropinInput tweaksEnabled reclaimStale = .ok plan)
    (hconf : plan.conflicts = []) {q : Str} (hq : q ≠ manifestName) :
    ((Call.generate ctx dropins tweaksEnabled reclaimStale noFaults).run dir).files q =
      (dir.putAll false (changesOf plan.writes plan.removes)).files q := by
  rw [run_generate hplan hconf]
  split
  · rename_i hempty
    rw [List.isEmpty_iff.1 hempty]
    rfl
  · exact Rung.files_put_of_ne hq

end

/-- A planned change makes a difference. -/
theorem files_ne_of_change {dir : Rung} {m : Manifest} {t : Target} {content : Option Str}
    (h : (verdictIn dir m t).change t.relname = some (t.relname, content)) :
    dir.files t.relname ≠ content.map .text := by
  intro he
  have hw : content = t.wanted := (of_change h).2.1
  unfold verdictIn at h
  rw [he] at h
  subst hw
  cases hw : t.wanted with
  | none => simp [hw, textOf, verdict, Verdict.change] at h
  | some content => simp [hw, textOf, verdict, Verdict.change] at h

theorem mem_names_of_batch {dir : Rung} {m : Manifest} {ts : List Target} {q : Str}
    (h : q ∈ (batchOf dir m ts).map Prod.fst) : q ∈ ts.map Target.relname := by
  obtain ⟨c, hc, rfl⟩ := List.mem_map.1 h
  obtain ⟨t, ht, hchange⟩ := mem_changesOf.1 hc
  exact (of_change hchange).1 ▸ List.mem_map_of_mem ht

theorem load_of_same {dir d : Rung} {m : Manifest} (h : d.files manifestName = dir.files manifestName)
    (hm : Manifest.load dir = .ok m) : Manifest.load d = .ok m := by
  have hread : ∀ {r}, dir.readToString manifestName = .ok r → d.readToString manifestName = .ok r := by
    intro r hr
    obtain ⟨hreadable, rfl⟩ := Rung.readToString_eq_ok.1 hr
    rw [← h]
    exact Rung.readToString_eq_ok.2 ⟨by rwa [Rung.Readable, h], rfl⟩
  unfold Manifest.load at hm ⊢
  cases hr : dir.readToString manifestName with
  | error e =>
    rw [hr] at hm
    cases hm
  | ok r =>
    rw [hr] at hm
    rw [hread hr]
    exact hm

section
variable {dir d : Rung} {m : Manifest} {ts : List Target} {forgotten : List Str}

/-- What a target is after a kill that came before the manifest was saved: still to be decided as before, or
changed and to be kept. -/
theorem target_after_kill {t : Target} (hn : (ts.map Target.relname).Nodup) (ht : t ∈ ts)
    (hname : t.relname ≠ manifestName) (hr : dir.Readable t.relname)
    (hl : BatchLeft dir m (batchOf dir m ts) forgotten d) : d.Readable t.relname ∧
      (d.files t.relname = dir.files t.relname ∧ verdictIn d m t = verdictIn dir m t ∨
        d.files t.relname = t.wanted.map .text ∧ d.files t.relname ≠ dir.files t.relname ∧
          (verdictIn dir m t).change t.relname = some (t.relname, t.wanted) ∧ verdictIn d m t = .keep) := by
  rcases hl.files _ hname with hsame | hmem
  · refine ⟨?_, Or.inl ⟨hsame, ?_⟩⟩
    · unfold Rung.Readable
      rw [hsame]
      exact hr
    · unfold verdictIn
      rw [hsame]
  · obtain ⟨c, hc, he⟩ := List.mem_map.1 hmem
    obtain ⟨hkey, hfile⟩ := Prod.mk.inj he
    obtain ⟨t', ht', hchange⟩ := mem_changesOf.1 hc
    obtain rfl := List.inj_on_of_nodup_map hn ht' ht ((of_change hchange).1.symm.trans hkey)
    obtain ⟨-, hwanted, -⟩ := of_change hchange
    have hc : c = (t'.relname, t'.wanted) := Prod.ext hkey hwanted
    rw [hc] at hchange
    rw [hwanted] at hfile
    have hne := files_ne_of_change hchange
    rw [← hfile]
    refine ⟨?_, Or.inr ⟨rfl, hne.symm, hchange, ?_⟩⟩
    · unfold Rung.Readable
      rw [← hfile]
      cases t'.wanted <;> simp
    · unfold verdictIn
      rw [← hfile]
      cases hw : t'.wanted with
      | none => exact verdict_of_unwanted hw fun e he => absurd he (by simp [textOf])
      | some content => exact verdict_of_wanted hw

theorem mem_batch_after_kill (hn : (ts.map Target.relname).Nodup) (hmani : manifestName ∉ ts.map Target.relname)
    (hr : ∀ t ∈ ts, dir.Readable t.relname) (hl : BatchLeft dir m (batchOf dir m ts) forgotten d)
    {c : Str × Option Str} : c ∈ batchOf d m ts ↔ c ∈ batchOf dir m ts ∧ d.files c.1 = dir.files c.1 := by
  have hkill := fun t ht => target_after_kill hn ht (fun he => hmani (he ▸ List.mem_map_of_mem ht)) (hr t ht) hl
  unfold batchOf
  rw [mem_changesOf, mem_changesOf]
  constructor
  · rintro ⟨t, ht, hchange⟩
    rcases (hkill t ht).2 with ⟨hfile, hv⟩ | ⟨-, -, -, hv⟩
    · rw [(of_change hchange).1]
      exact ⟨⟨t, ht, hv ▸ hchange⟩, hfile⟩
    · rw [hv] at hchange
      cases hchange
  · rintro ⟨⟨t, ht, hchange⟩, hfile⟩
    rw [(of_change hchange).1] at hfile
    rcases (hkill t ht).2 with ⟨-, hv⟩ | ⟨-, hne, -, -⟩
    · exact ⟨t, ht, hv.symm ▸ hchange⟩
    · exact absurd hfile hne

/-- The rest of the batch leads where the whole batch leads. -/
theorem files_after_kill (hn : (ts.map Target.relname).Nodup) (hr : ∀ t ∈ ts, dir.Readable t.relname)
    (hl : BatchLeft dir m (batchOf dir m ts) forgotten d) {q : Str} (hq : q ≠ manifestName) :
    (d.putAll false (batchOf d m ts)).files q = (dir.putAll false (batchOf dir m ts)).files q := by
  by_cases hmem : q ∈ ts.map Target.relname
  · obtain ⟨t, ht, rfl⟩ := List.mem_map.1 hmem
    rcases (target_after_kill hn ht hq (hr t ht) hl).2 with ⟨hfile, hv⟩ | ⟨hfile, -, hchange, hv⟩
    · cases hchange : (verdictIn dir m t).change t.relname with
      | none =>
        rw [files_of_no_change (not_mem_batchOf hn ht hchange),
          files_of_no_change (not_mem_batchOf hn ht (hv.symm ▸ hchange)), hfile]
      | some c =>
        have hc : c = (t.relname, c.2) := Prod.ext (of_change hchange).1 rfl
        rw [hc] at hchange
        rw [files_of_change hn ht hchange, files_of_change hn ht (hv.symm ▸ hchange)]
    · have hkeep : (verdictIn d m t).change t.relname = none := by
        rw [hv]
        rfl
      rw [files_of_change hn ht hchange, files_of_no_change (not_mem_batchOf hn ht hkeep), hfile]
  · have hsame : d.files q = dir.files q :=
      (hl.files q hq).resolve_right fun hc => hmem (mem_names_of_batch
        (Rung.keys_toChanges _ ▸ List.mem_map_of_mem (f := Prod.fst) hc))
    rw [files_of_no_change fun hc => hmem (mem_names_of_batch hc),
      files_of_no_change fun hc => hmem (mem_names_of_batch hc), hsame]

end

/-- A batch that is killed after it has saved the manifest has left nothing out. -/
theorem files_of_saved {dir d : Rung} {m : Manifest} {cs : List (Str × Option Str)} {forgotten : List Str}
    (hn : (cs.map Prod.fst).Nodup) (hl : BatchLeft dir m cs forgotten d)
    (hmade : ∀ c ∈ cs, d.files c.1 = c.2.map .text) {q : Str} (hq : q ≠ manifestName) :
    d.files q = (dir.putAll false cs).files q := by
  have hkeys : ((Rung.toChanges cs).map Prod.fst).Nodup := by rwa [Rung.keys_toChanges]
  rw [Rung.files_putAll]
  by_cases hmem : q ∈ cs.map Prod.fst
  · obtain ⟨c, hc, rfl⟩ := List.mem_map.1 hmem
    have hin : (c.1, c.2.map FileData.text) ∈ Rung.toChanges cs := List.mem_map.2 ⟨c, hc, rfl⟩
    rw [apply_of_mem hkeys hin]
    exact hmade c hc
  · rw [← Rung.keys_toChanges] at hmem
    rw [apply_of_not_mem hmem]
    exact (hl.files q hq).resolve_right fun hc => hmem (List.mem_map_of_mem (f := Prod.fst) hc)

/-- **Going on after a kill**: before the manifest is saved, the same generation plans just the changes that
have not been made, and leads where it would have led without the kill; after that, nothing is missing. -/
theorem generation_resumed {dir : Rung} {ctx : RenderCtx} {dropins : ResolvedInput}
    {tweaksEnabled reclaimStale : Bool} {plan : GenerationPlan} (faults : FsFaults) (n : Nat)
    (hplan : planGenerate dir ctx dropins.toDropinInput tweaksEnabled reclaimStale = .ok plan)
    (hconf : plan.conflicts = []) :
    let d := (Call.generate ctx dropins tweaksEnabled reclaimStale faults).killed n dir
    let finished := (Call.generate ctx dropins tweaksEnabled reclaimStale noFaults).run dir
    (d.files manifestName = dir.files manifestName →
      ∃ plan', planGenerate d ctx dropins.toDropinInput tweaksEnabled reclaimStale = .ok plan' ∧ plan'.conflicts = [] ∧
        (∀ c, c ∈ changesOf plan'.writes plan'.removes ↔
          c ∈ changesOf plan.writes plan.removes ∧ d.files c.1 = dir.files c.1) ∧
        ∀ q, q ≠ manifestName →
          ((Call.generate ctx dropins tweaksEnabled reclaimStale noFaults).run d).files q = finished.files q) ∧
      (d.files manifestName ≠ dir.files manifestName → d.files = finished.files) := by
  intro d finished
  have hleft : BatchLeft dir plan.manifest (changesOf plan.writes plan.removes) [] d := left_of_generate hplan hconf n
  obtain ⟨hm, hr, hp⟩ := planGenerate_ok.1 hplan
  have hfinished : finished = _ := run_generate hplan hconf
  have hfiles : ∀ q, q ≠ manifestName → finished.files q = _ := fun q hq => files_run_generate hplan hconf hq
  have hnodup := nodup_targets ctx dropins.toDropinInput tweaksEnabled reclaimStale
  have hmani := manifestName_not_mem_targets ctx dropins.toDropinInput tweaksEnabled reclaimStale
  have hverdicts := conflicts_extend_eq_nil.1 (hp ▸ hconf)
  rw [changes_eq_batchOf hplan] at hleft hfinished hfiles ⊢
  clear_value d finished
  generalize plan.manifest = m at *
  generalize hts : targets ctx dropins.toDropinInput tweaksEnabled reclaimStale = ts at *
  refine ⟨fun hsame => ?_, fun hsaved => ?_⟩
  · have hplan' : planGenerate d ctx dropins.toDropinInput tweaksEnabled reclaimStale =
        .ok (GenerationPlan.extend ⟨[], [], [], [], m⟩ d ts) := by
      refine planGenerate_ok.2 ⟨load_of_same hsame hm, ?_, by rw [hts]; rfl⟩
      rw [hts]
      exact fun t ht => (target_after_kill hnodup ht (fun he => hmani (he ▸ List.mem_map_of_mem ht)) (hr t ht) hleft).1
    have hconf' : (GenerationPlan.extend ⟨[], [], [], [], m⟩ d ts).conflicts = [] := by
      refine conflicts_extend_eq_nil.2 fun t ht => ?_
      rcases (target_after_kill hnodup ht (fun he => hmani (he ▸ List.mem_map_of_mem ht)) (hr t ht) hleft).2 with
        ⟨-, hv⟩ | ⟨-, -, -, hv⟩
      · rw [hv]
        exact hverdicts t ht
      · rw [hv]
        decide
    refine ⟨_, hplan', hconf', fun c => mem_batch_after_kill hnodup hmani hr hleft, fun q hq => ?_⟩
    rw [files_run_generate hplan' hconf' hq, hfiles q hq]
    exact files_after_kill hnodup hr hleft hq
  · obtain ⟨hsome, hfile, hmade⟩ := hleft.manifest.resolve_left hsaved
    rw [List.isEmpty_nil, Bool.and_true] at hsome
    rw [hsome, if_neg Bool.false_ne_true] at hfinished
    funext q
    by_cases hq : q = manifestName
    · rw [hq, hfile, hfinished, Rung.files_put_self]
      rfl
    · rw [hfiles q hq]
      exact files_of_saved (nodup_changesOf hnodup) hleft (fun c hc => (hmade c hc).1) hq

/-! ## Writes that are on no record -/

/-- A file that wsmr finds, and takes for that of someone else. -/
structure Orphaned (dir : Rung) (q content : Str) : Prop where
  file : dir.files q = some (.text content)
  unverified : ∀ m, Manifest.load dir = .ok m → m.verify q content = false

def Incident.edits (q : Str) : Incident → Prop
  | .call _ _ => False
  | .edit relname _ _ => relname = q

/-- No call changes an orphaned unit file, or takes it on record. -/
theorem orphaned_call {dir : Rung} (ha : Accounted dir) {q content : Str} (hq : q ∈ graph.map UnitTemplate.name)
    (h : Orphaned dir q content) (c : Call) (n : Nat) : Orphaned (c.killed n dir) q content := by
  rcases killed_cases ha c n with hsame | ⟨m, cs, forgotten, hm, hs, hn, hp, hl⟩
  · rw [hsame]
    exact h
  have hne : q ≠ manifestName := manifestName_not_managed (Or.inl (List.mem_append_left _ hq))
  have hkey : q ∉ cs.map Prod.fst := fun hmem => by
    obtain ⟨ch, hc, rfl⟩ := List.mem_map.1 hmem
    have hv := ((hp ch hc).1.graph hq).2 content (by rw [h.file]; rfl)
    exact Bool.false_ne_true ((h.unverified m hm).symm.trans hv)
  have hfile : (c.killed n dir).files q = dir.files q :=
    (hl.files q hne).resolve_right fun hc => hkey (Rung.keys_toChanges _ ▸ List.mem_map_of_mem (f := Prod.fst) hc)
  refine ⟨hfile.trans h.file, fun m' hm' => ?_⟩
  rcases hl.manifest with hsame | ⟨-, hsaved, -⟩
  · obtain rfl := Except.ok.inj ((load_of_same hsame hm).symm.trans hm')
    exact h.unverified m hm
  · -- the entry for `q` is the old one
    have hstorable : ∀ k ∈ (m.after cs forgotten).entries, Manifest.Storable k := fun k hk => by
      obtain ⟨fp, hfp⟩ := Option.isSome_iff_exists.1 (Std.ExtTreeMap.mem_iff_isSome_getElem?.1 hk)
      rcases of_getElem?_after hn hfp with hold | ⟨_, hc, -⟩
      · exact (hs k fp hold).1
      · exact (hp _ hc).1.storable
    have hload := load_of_text hsaved
    rw [Manifest.parse_render hstorable] at hload
    obtain rfl := Except.ok.inj (hload.symm.trans hm')
    refine verify_eq_false.2 fun hentry => ?_
    rcases of_getElem?_after hn hentry with hold | ⟨_, hc, -⟩
    · exact verify_eq_false.1 (h.unverified m hm) hold
    · exact hkey (List.mem_map_of_mem (f := Prod.fst) hc)

theorem orphaned_runIncidents {dir : Rung} (ha : Accounted dir) {q content : Str}
    (hq : q ∈ graph.map UnitTemplate.name) (h : Orphaned dir q content) {incidents : List Incident}
    (hedits : ∀ i ∈ incidents, ¬ i.edits q) : Orphaned (runIncidents incidents dir) q content := by
  induction incidents generalizing dir with
  | nil => exact h
  | cons incident incidents ih =>
    rw [List.forall_mem_cons] at hedits
    cases incident with
    | call c n => exact ih (killed_step ha c n).2 (orphaned_call ha hq h c n) hedits.2
    | edit relname data other =>
      have hne : q ≠ relname := fun he => hedits.1 he.symm
      have hmani : Function.update dir.files relname data manifestName = dir.files manifestName :=
        Function.update_of_ne other.symm _ _
      refine ih (accounted_step ha (.edit relname data other)) ⟨?_, fun m hm => ?_⟩ hedits.2
      · exact (Function.update_of_ne hne _ _).trans h.file
      · obtain ⟨m', hm', -⟩ := load_of_accounted ha
        obtain rfl := Except.ok.inj ((load_of_same hmani hm').symm.trans hm)
        exact h.unverified m' hm'

/-- A generation that wants another content for an orphaned unit file is refused. -/
theorem orphaned_refused {dir : Rung} {unit : UnitTemplate} {content : Str} (hunit : unit ∈ graph)
    (h : Orphaned dir unit.name content) {ctx : RenderCtx} {dropins : DropinInput} {tweaksEnabled reclaimStale : Bool}
    {plan : GenerationPlan} (hne : render unit.body ctx ≠ content)
    (hplan : planGenerate dir ctx dropins tweaksEnabled reclaimStale = .ok plan) :
    (∃ conflict ∈ plan.conflicts, conflict.relname = unit.name) ∧
      ∀ faults, runFs faults (applyGenerate dir.path plan) dir =
        (.error (conflictError dir.path plan.conflicts), dir) := by
  obtain ⟨hm, -, hp⟩ := planGenerate_ok.1 hplan
  have hv : verdictIn dir plan.manifest (writeTarget unit.name (render unit.body ctx)) = .conflict := by
    have hunverified := h.unverified _ hm
    simp [verdictIn, writeTarget, h.file, textOf, verdict, hunverified, Ne.symm hne]
  have ht : writeTarget unit.name (render unit.body ctx) ∈ targets ctx dropins tweaksEnabled reclaimStale :=
    List.mem_append_left _ (List.mem_append_left _ (List.mem_map.2 ⟨unit, hunit, rfl⟩))
  have hconflict : ∃ conflict ∈ plan.conflicts, conflict.relname = unit.name := by
    refine ⟨⟨unit.name, (writeTarget unit.name (render unit.body ctx)).reason⟩, ?_, rfl⟩
    rw [hp]
    refine List.mem_append_right _ (List.mem_map.2 ⟨_, List.mem_filter.2 ⟨ht, ?_⟩, rfl⟩)
    exact beq_iff_eq.2 hv
  refine ⟨hconflict, fun faults => ?_⟩
  obtain ⟨conflict, hmem, -⟩ := hconflict
  rw [applyGenerate_eq, if_neg (by simpa using List.ne_nil_of_mem hmem)]
  rfl

/-- **Orphaned writes**: a unit file that a generation had written when it was killed, and whose new content
the old manifest did not verify, is never changed by wsmr again nor taken on record, and every generation that
wants another content for it is refused, until another program changes the file. -/
theorem interrupted_write_orphaned {dir : Rung} (h : dir.files manifestName = none) (before after : List Incident)
    {ctx : RenderCtx} {dropins : ResolvedInput} {tweaksEnabled reclaimStale : Bool} {plan : GenerationPlan}
    (faults : FsFaults) (n : Nat) {unit : UnitTemplate} {content : Str} (hunit : unit ∈ graph)
    (hplan : planGenerate (runIncidents before dir) ctx dropins.toDropinInput tweaksEnabled reclaimStale = .ok plan)
    (hold : plan.manifest.verify unit.name content = false)
    (hwritten : ((Call.generate ctx dropins tweaksEnabled reclaimStale faults).killed n
      (runIncidents before dir)).files unit.name = some (.text content))
    (hsaved : ((Call.generate ctx dropins tweaksEnabled reclaimStale faults).killed n
      (runIncidents before dir)).files manifestName = (runIncidents before dir).files manifestName)
    (hedits : ∀ i ∈ after, ¬ i.edits unit.name) :
    let d := runIncidents after
      ((Call.generate ctx dropins tweaksEnabled reclaimStale faults).killed n (runIncidents before dir))
    d.files unit.name = some (.text content) ∧
      (∀ m, Manifest.load d = .ok m → m.verify unit.name content = false) ∧
      ∀ (ctx' : RenderCtx) (dropins' : DropinInput) (tweaksEnabled' reclaimStale' : Bool) (plan' : GenerationPlan),
        render unit.body ctx' ≠ content →
        planGenerate d ctx' dropins' tweaksEnabled' reclaimStale' = .ok plan' →
          (∃ conflict ∈ plan'.conflicts, conflict.relname = unit.name) ∧
            ∀ faults', runFs faults' (applyGenerate d.path plan') d =
              (.error (conflictError d.path plan'.conflicts), d) := by
  intro d
  have ha := accounted_runIncidents (Or.inl h) before
  have hm := (planGenerate_ok.1 hplan).1
  have horphan : Orphaned ((Call.generate ctx dropins tweaksEnabled reclaimStale faults).killed n
      (runIncidents before dir)) unit.name content := by
    refine ⟨hwritten, fun m' hm' => ?_⟩
    obtain rfl := Except.ok.inj ((load_of_same hsaved hm).symm.trans hm')
    exact hold
  have hlater : Orphaned d unit.name content :=
    orphaned_runIncidents (killed_step ha _ n).2 (List.mem_map_of_mem hunit) horphan hedits
  exact ⟨hlater.file, hlater.unverified, fun ctx' dropins' tweaksEnabled' reclaimStale' plan' hne hplan' =>
    orphaned_refused hunit hlater hne hplan'⟩

/-- Without failures, a batch killed after `2 * k` operations has made its first `k` changes. -/
theorem stop_foldlM_applyStep {path : Str} {γ : Type} {f : Batch → FsIo γ} {k : Nat} {cs : List (Str × Option Str)}
    (b : Batch) (dir : Rung) (hk : k ≤ cs.length) :
    stopFs noFaults (2 * k) (cs.foldlM (applyStep path) b >>= f) dir =
      dir.putAll false (cs.take k) := by
  induction k generalizing cs b dir with
  | zero => simp [stopFs, Prog.stop, Rung.putAll]
  | succ k ih =>
    cases cs with
    | nil => simp at hk
    | cons c cs =>
      have hk : k ≤ cs.length := by simpa using hk
      rw [List.foldlM_cons, bind_assoc, Nat.mul_succ]
      exact ih (b.push c (textOf (dir.files c.1))) (dir.put false c.1 c.2) hk

/-- The service unit of the compositor. -/
def wmService : UnitTemplate := graph.get ⟨5, by decide⟩

theorem wmService_mem : wmService ∈ graph := List.get_mem _ _

def firstPlan : GenerationPlan :=
  GenerationPlan.extend ⟨[], [], [], [], .default⟩ emptyRung (targets usrBin swayInput.toDropinInput false false)

theorem planGenerate_emptyRung :
    planGenerate emptyRung usrBin swayInput.toDropinInput false false = .ok firstPlan :=
  planGenerate_ok.2 ⟨rfl, fun t _ => pristine_emptyRung.readable t.relname, rfl⟩

theorem conflicts_firstPlan : firstPlan.conflicts = [] := by
  refine conflicts_extend_eq_nil.2 fun t _ hv => ?_
  obtain ⟨-, e, _, he, -⟩ := verdict_eq_conflict hv
  cases he

/-- The first six files of the graph. -/
def firstFiles : List (Str × Option Str) :=
  (graph.take 6).map fun unit => (unit.name, some (render unit.body usrBin))

/-- Killed after six files. -/
theorem killed_emptyRung : (Call.generate usrBin swayInput false false noFaults).killed 12 emptyRung =
    emptyRung.putAll false firstFiles := by
  have hchanges : ∃ cs, changesOf firstPlan.writes firstPlan.removes = firstFiles ++ cs := ⟨_, rfl⟩
  obtain ⟨cs, hcs⟩ := hchanges
  have hlength : firstFiles.length = 6 := rfl
  have hstop := @stop_foldlM_applyStep emptyRung.path _
    (fun b => finish emptyRung.path b.out b.manifest (b.out.changed || false)) 6 (firstFiles ++ cs)
    (.start .default) emptyRung (by simp [hlength])
  rw [List.take_left' hlength] at hstop
  simp only [Call.killed, planGenerate_emptyRung, applyGenerate_eq, conflicts_firstPlan, hcs]
  exact hstop

theorem manifestName_not_mem_firstFiles : manifestName ∉ firstFiles.map Prod.fst := by
  intro h
  obtain ⟨c, hc, he⟩ := List.mem_map.1 h
  obtain ⟨unit, hunit, rfl⟩ := List.mem_map.1 hc
  have hmem : unit.name ∈ graph.map UnitTemplate.name := List.mem_map_of_mem (List.mem_of_mem_take hunit)
  exact manifestName_not_mem_staticNames (he ▸ List.mem_append_left _ hmem)

theorem manifest_killed_emptyRung : ((Call.generate usrBin swayInput false false noFaults).killed 12 emptyRung).files
    manifestName = emptyRung.files manifestName := by
  rw [killed_emptyRung, Rung.files_putAll]
  exact apply_of_not_mem (by rw [Rung.keys_toChanges]; exact manifestName_not_mem_firstFiles)

theorem wmService_killed_emptyRung : ((Call.generate usrBin swayInput false false noFaults).killed 12 emptyRung).files
    wmService.name = some (.text (render wmService.body usrBin)) := by
  rw [killed_emptyRung]
  exact Rung.files_put_self _ _ _ _

/-- The same generation again has nothing but the other files to write. -/
theorem generation_resumed_emptyRung :
    ∃ plan', planGenerate ((Call.generate usrBin swayInput false false noFaults).killed 12 emptyRung) usrBin
      swayInput.toDropinInput false false = .ok plan' ∧ plan'.conflicts = [] ∧
        ∀ c ∈ changesOf plan'.writes plan'.removes, c ∈ changesOf firstPlan.writes firstPlan.removes := by
  obtain ⟨plan', hplan, hconf, hchanges, -⟩ := (generation_resumed noFaults 12 planGenerate_emptyRung
    conflicts_firstPlan).1 manifest_killed_emptyRung
  exact ⟨plan', hplan, hconf, fun c hc => ((hchanges c).1 hc).1⟩

theorem unverified_firstPlan (q content : Str) : firstPlan.manifest.verify q content = false := by
  simp [firstPlan, GenerationPlan.extend, Manifest.verify, Manifest.default]

/-- The same generation again, and this time to its end. -/
def secondGeneration : List Incident := [.call (.generate usrBin swayInput false false noFaults) 1000]

/-- The service written by the generation that was killed is not on record after one that goes through, and is not
replaced. -/
theorem wmService_orphaned :
    let d := runIncidents secondGeneration ((Call.generate usrBin swayInput false false noFaults).killed 12 emptyRung)
    d.files wmService.name = some (.text (render wmService.body usrBin)) ∧
      (∀ m, Manifest.load d = .ok m → m.verify wmService.name (render wmService.body usrBin) = false) ∧
      ∀ (ctx' : RenderCtx) (dropins' : DropinInput) (tweaksEnabled' reclaimStale' : Bool) (plan' : GenerationPlan),
        render wmService.body ctx' ≠ render wmService.body usrBin →
        planGenerate d ctx' dropins' tweaksEnabled' reclaimStale' = .ok plan' →
          (∃ conflict ∈ plan'.conflicts, conflict.relname = wmService.name) ∧
            ∀ faults', runFs faults' (applyGenerate d.path plan') d =
              (.error (conflictError d.path plan'.conflicts), d) := by
  have hedits : ∀ i ∈ secondGeneration, ¬ i.edits wmService.name := by simp [secondGeneration, Incident.edits]
  have h := @interrupted_write_orphaned emptyRung rfl [] secondGeneration usrBin swayInput false false firstPlan
    noFaults 12 wmService (render wmService.body usrBin) wmService_mem
  simp only [runIncidents_nil] at h
  exact h planGenerate_emptyRung (unverified_firstPlan _ _) wmService_killed_emptyRung manifest_killed_emptyRung hedits

end Wsmr
