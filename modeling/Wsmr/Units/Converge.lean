import Wsmr.Units.Ownership

/-!
# Generation converges

After a generation that has worked every wanted file is there, and a second plan has nothing to do
(`generation_converges`). The second plan goes by the manifest as it is read back, and reading drops a
carriage return at the end of a path; a manifest that tracks a path ending in one can come to verify a
foreign file this way (`reread_manifest_claims_foreign`).
-/

namespace Wsmr

open Text Effects UndoLog

/-- What a generation that has worked in `dir` leaves in `dir'`. -/
structure Settled (dir dir' : Rung) (m : Manifest) (ctx : RenderCtx) (dropins : DropinInput)
    (tweaksEnabled reclaimStale : Bool) : Prop where
  graph : ∀ unit ∈ graph, dir'.files unit.name = some (.text (render unit.body ctx))
  wanted : ∀ t ∈ targets ctx dropins tweaksEnabled reclaimStale, ∀ content, t.wanted = some content →
    dir'.files t.relname = some (.text content)
  unwanted : ∀ t ∈ targets ctx dropins tweaksEnabled reclaimStale, t.wanted = none →
    dir'.files t.relname = none ∨
      (dir'.files t.relname = dir.files t.relname ∧
        ∃ e, dir.files t.relname = some (.text e) ∧ m.verify t.relname e = false)
  other : ∀ q, q ≠ manifestName → q ∉ (targets ctx dropins tweaksEnabled reclaimStale).map Target.relname →
    dir'.files q = dir.files q
  again : ∃ plan, planGenerate dir' ctx dropins tweaksEnabled reclaimStale = .ok plan ∧
    plan.writes = [] ∧ plan.removes = [] ∧ plan.conflicts = []

/-- A generation in `dir` that plans no conflict and works leaves things settled. -/
def Converges (dir : Rung) (ctx : RenderCtx) (dropins : DropinInput) (tweaksEnabled reclaimStale : Bool)
    (faults : FsFaults) : Prop :=
  ∀ plan, planGenerate dir ctx dropins tweaksEnabled reclaimStale = .ok plan → plan.conflicts = [] →
    ∀ out dir', runFs faults (applyGenerate dir.path plan) dir = (.ok out, dir') →
      Settled dir dir' plan.manifest ctx dropins tweaksEnabled reclaimStale

/-! ## After a batch that has worked -/

section
variable {dir : Rung} {m : Manifest} {ts : List Target} {t : Target}

/-- The batch of the targets' verdicts. -/
def batchOf (dir : Rung) (m : Manifest) (ts : List Target) : List (Str × Option Str) :=
  changesOf (GenerationPlan.extend ⟨[], [], [], [], m⟩ dir ts).writes
    (GenerationPlan.extend ⟨[], [], [], [], m⟩ dir ts).removes

theorem not_mem_batchOf (hn : (ts.map Target.relname).Nodup) (ht : t ∈ ts)
    (hv : (verdictIn dir m t).change t.relname = none) : t.relname ∉ (batchOf dir m ts).map Prod.fst := by
  intro h
  obtain ⟨c, hc, he⟩ := List.mem_map.1 h
  obtain ⟨t', ht', hchange⟩ := mem_changesOf.1 hc
  have hname : t'.relname = t.relname := (of_change hchange).1.symm.trans he
  obtain rfl := List.inj_on_of_nodup_map hn ht' ht hname
  rw [hv] at hchange
  cases hchange

/-- A target that is to change holds what its verdict says. -/
theorem files_of_change (hn : (ts.map Target.relname).Nodup) (ht : t ∈ ts) {content : Option Str}
    (hv : (verdictIn dir m t).change t.relname = some (t.relname, content)) :
    (dir.putAll false (batchOf dir m ts)).files t.relname = content.map .text := by
  rw [Rung.files_putAll]
  refine apply_of_mem ?_ (List.mem_map.2 ⟨(t.relname, content), mem_changesOf.2 ⟨t, ht, hv⟩, rfl⟩)
  rw [Rung.keys_toChanges]
  exact nodup_changesOf hn

theorem files_of_no_change {q : Str} (h : q ∉ (batchOf dir m ts).map Prod.fst) :
    (dir.putAll false (batchOf dir m ts)).files q = dir.files q := by
  rw [Rung.files_putAll]
  exact apply_of_not_mem (by rwa [Rung.keys_toChanges])

theorem removes_extend_eq_nil :
    (GenerationPlan.extend ⟨[], [], [], [], m⟩ dir ts).removes = [] ↔ ∀ t ∈ ts, verdictIn dir m t ≠ .remove := by
  simp only [GenerationPlan.extend, List.nil_append, List.map_eq_nil_iff, List.filter_eq_nil_iff, beq_iff_eq, ne_eq]

theorem conflicts_extend_eq_nil :
    (GenerationPlan.extend ⟨[], [], [], [], m⟩ dir ts).conflicts = [] ↔ ∀ t ∈ ts, verdictIn dir m t ≠ .conflict := by
  simp only [GenerationPlan.extend, List.nil_append, List.map_eq_nil_iff, List.filter_eq_nil_iff, beq_iff_eq, ne_eq]

theorem verdict_eq_keep {existing : Option Str} (h : verdict m t existing = .keep) :
    (∀ content, t.wanted = some content → existing = some content) ∧
      (t.wanted = none → ∀ e, existing = some e → m.verify t.relname e = false) := by
  unfold verdict at h
  split at h
  · cases h
  · rename_i hw
    exact ⟨fun content hc => absurd (hw.symm.trans hc) (by simp), fun _ e he => absurd he (by simp)⟩
  · rename_i e content hw
    split at h
    · rename_i he
      refine ⟨fun content' hc => ?_, fun hno => absurd (hw.symm.trans hno) (by simp)⟩
      rw [he, Option.some.inj (hw.symm.trans hc)]
    · split at h
      · cases h
      · split at h <;> cases h
  · rename_i e hw
    split at h
    · cases h
    · rename_i hv
      refine ⟨fun content hc => absurd (hw.symm.trans hc) (by simp), fun _ e' he => ?_⟩
      rw [← Option.some.inj he]
      simpa using hv

theorem verdict_of_wanted {content : Str} (h : t.wanted = some content) :
    verdict m t (some content) = .keep := by
  unfold verdict
  rw [h]
  simp

theorem verdict_of_unwanted {existing : Option Str} (h : t.wanted = none)
    (hv : ∀ e, existing = some e → m.verify t.relname e = false) : verdict m t existing = .keep := by
  unfold verdict
  rw [h]
  cases existing with
  | none => rfl
  | some e => simp [hv e rfl]

theorem verdict_of_verified {e : Str} (h : t.wanted = none) (hv : m.verify t.relname e = true) :
    verdict m t (some e) = .remove := by
  unfold verdict
  rw [h]
  simp [hv]

theorem keep_of_wanted {content : Str} (hw : t.wanted = some content)
    (hf : dir.files t.relname = some (.text content)) : dir.Readable t.relname ∧ verdictIn dir m t = .keep := by
  refine ⟨by simp [Rung.Readable, hf], ?_⟩
  unfold verdictIn
  rw [hf]
  exact verdict_of_wanted hw

theorem keep_of_unwanted (hw : t.wanted = none) (hf : dir.files t.relname = none ∨
    ∃ e, dir.files t.relname = some (.text e) ∧ m.verify t.relname e = false) :
    dir.Readable t.relname ∧ verdictIn dir m t = .keep := by
  rcases hf with hf | ⟨e, hf, hv⟩
  · refine ⟨by simp [Rung.Readable, hf], verdict_of_unwanted hw fun e he => ?_⟩
    rw [hf] at he
    cases he
  · refine ⟨by simp [Rung.Readable, hf], verdict_of_unwanted hw fun e' he => ?_⟩
    rw [hf] at he
    exact Option.some.inj he ▸ hv

end

/-! ## The second plan -/

section
variable {dir : Rung} {ctx : RenderCtx} {dropins : DropinInput} {tweaksEnabled reclaimStale : Bool}

/-- A plan with nothing but files to keep is empty. -/
theorem planGenerate_of_keep {m : Manifest} (hm : Manifest.load dir = .ok m)
    (h : ∀ t ∈ targets ctx dropins tweaksEnabled reclaimStale, dir.Readable t.relname ∧ verdictIn dir m t = .keep) :
    ∃ plan, planGenerate dir ctx dropins tweaksEnabled reclaimStale = .ok plan ∧
      plan.writes = [] ∧ plan.removes = [] ∧ plan.conflicts = [] := by
  refine ⟨GenerationPlan.extend ⟨[], [], [], [], m⟩ dir (targets ctx dropins tweaksEnabled reclaimStale),
    planGenerate_ok.2 ⟨hm, fun t ht => (h t ht).1, rfl⟩, ?_, ?_, ?_⟩
  · simp only [GenerationPlan.extend, List.nil_append, List.filterMap_eq_nil_iff]
    intro t ht
    rw [(h t ht).2]
    rfl
  · simp only [GenerationPlan.extend, List.nil_append, List.map_eq_nil_iff, List.filter_eq_nil_iff]
    intro t ht
    rw [(h t ht).2]
    decide
  · simp only [GenerationPlan.extend, List.nil_append, List.map_eq_nil_iff, List.filter_eq_nil_iff]
    intro t ht
    rw [(h t ht).2]
    decide

theorem oneLine_of_load {m : Manifest} (h : Manifest.load dir = .ok m) : m.OneLine := by
  unfold Manifest.load at h
  cases hr : dir.readToString manifestName with
  | error e =>
    rw [hr] at h
    cases h
  | ok text =>
    rw [hr] at h
    obtain rfl := Except.ok.inj h
    cases text with
    | none => exact fun k hk => absurd hk (by simp [Manifest.default])
    | some s => exact Manifest.oneLine_parse s

theorem load_of_text {text : Str} (h : dir.files manifestName = some (.text text)) :
    Manifest.load dir = .ok (Manifest.parse text) := by
  have hread : dir.readToString manifestName = .ok (some text) :=
    Rung.readToString_eq_ok.2 ⟨by simp [Rung.Readable, h], by rw [h]; rfl⟩
  unfold Manifest.load
  rw [hread]
  rfl

theorem verify_eq_false {m : Manifest} {q e : Str} : m.verify q e = false ↔ m.entries[q]? ≠ some (fingerprint e) := by
  simp [Manifest.verify]

theorem oneLine_after {m : Manifest} {cs : List (Str × Option Str)} (hm : m.OneLine)
    (hn : (cs.map Prod.fst).Nodup) (hst : ∀ c ∈ cs, Manifest.Storable c.1) : (m.after cs []).OneLine := by
  intro k hk
  obtain ⟨fp, hfp⟩ := Option.isSome_iff_exists.1 (Std.ExtTreeMap.mem_iff_isSome_getElem?.1 hk)
  rcases of_getElem?_after hn hfp with h | ⟨content, hc, -⟩
  · exact hm k (Std.ExtTreeMap.mem_iff_isSome_getElem?.2 (by rw [h]; rfl))
  · exact ⟨(hst _ hc).1, (hst _ hc).2.1⟩

/-- No target that is not wanted becomes verified by the manifest that is read back. -/
theorem verify_reread {m : Manifest} {cs : List (Str × Option Str)} {q e : Str} (hm : m.OneLine)
    (hn : (cs.map Prod.fst).Nodup) (hst : ∀ c ∈ cs, Manifest.Storable c.1) (hq : q ∉ cs.map Prod.fst)
    (hv : m.verify q e = false) (hcr : m.verify (q ++ ['\r']) e = false) :
    (Manifest.parse (m.after cs []).render).verify q e = false := by
  rw [verify_eq_false] at hv hcr ⊢
  intro h
  rcases Manifest.of_getElem?_parse_render (oneLine_after hm hn hst) h with h | h
  · rcases of_getElem?_after hn h with h | ⟨content, hc, -⟩
    · exact hv h
    · exact hq (List.mem_map_of_mem (f := Prod.fst) hc)
  · rcases of_getElem?_after hn h with h | ⟨content, hc, -⟩
    · exact hcr h
    · exact (hst _ hc).2.2 (List.getLast?_concat)

end

/-! ## Convergence -/

section
variable {dir dir' : Rung} {ctx : RenderCtx} {dropins : DropinInput} {tweaksEnabled reclaimStale : Bool}
  {faults : FsFaults} {plan : GenerationPlan} {out : GenOutcome}

/-- The files after a generation that has worked. -/
theorem files_of_applied (hconf : plan.conflicts = [])
    (hrun : runFs faults (applyGenerate dir.path plan) dir = (.ok out, dir')) :
    (changesOf plan.writes plan.removes = [] ∧ dir' = dir) ∨
      (dir' = (dir.putAll false (changesOf plan.writes plan.removes)).put false manifestName
        (some (plan.manifest.after (changesOf plan.writes plan.removes) []).render)) := by
  rw [applyGenerate_eq, hconf, List.isEmpty_nil, if_pos rfl] at hrun
  by_cases hstop : ∃ c ∈ changesOf plan.writes plan.removes, faults.change c.1 = true
  · obtain ⟨_, _, _, _, _, _, hstopped⟩ := runBatch_stopped dir dir.path plan.manifest [] hstop
    rw [hstopped] at hrun
    cases hrun
  · rw [runBatch_through (by simpa using hstop)] at hrun
    split at hrun
    · rename_i hempty
      have hnil : changesOf plan.writes plan.removes = [] := by simpa using hempty
      obtain ⟨-, rfl⟩ := Prod.mk.inj hrun
      refine Or.inl ⟨hnil, ?_⟩
      rw [hnil]
      rfl
    · split at hrun
      · cases hrun
      · obtain ⟨-, rfl⟩ := Prod.mk.inj hrun
        exact Or.inr rfl

theorem changes_eq_batchOf (hplan : planGenerate dir ctx dropins tweaksEnabled reclaimStale = .ok plan) :
    changesOf plan.writes plan.removes =
      batchOf dir plan.manifest (targets ctx dropins tweaksEnabled reclaimStale) := by
  obtain ⟨-, -, hp⟩ := planGenerate_ok.1 hplan
  rw [hp]
  rfl

/-- Whatever is not the manifest is as the batch leaves it. -/
theorem files_of_generation (hplan : planGenerate dir ctx dropins tweaksEnabled reclaimStale = .ok plan)
    (hconf : plan.conflicts = []) (hrun : runFs faults (applyGenerate dir.path plan) dir = (.ok out, dir'))
    {q : Str} (hq : q ≠ manifestName) : dir'.files q =
      (dir.putAll false (batchOf dir plan.manifest (targets ctx dropins tweaksEnabled reclaimStale))).files q := by
  rcases files_of_applied hconf hrun with ⟨hnil, rfl⟩ | rfl
  · rw [← changes_eq_batchOf hplan, hnil]
    rfl
  · rw [changes_eq_batchOf hplan]
    exact Rung.files_put_of_ne hq

/-- The manifest that the second plan reads verifies no foreign file that is in the way. -/
theorem exists_reload (hplan : planGenerate dir ctx dropins tweaksEnabled reclaimStale = .ok plan)
    (hconf : plan.conflicts = []) (hrun : runFs faults (applyGenerate dir.path plan) dir = (.ok out, dir'))
    (hst : ∀ t ∈ targets ctx dropins tweaksEnabled reclaimStale, Manifest.Storable t.relname) :
    ∃ m, Manifest.load dir' = .ok m ∧ ∀ q e,
      q ∉ (batchOf dir plan.manifest (targets ctx dropins tweaksEnabled reclaimStale)).map Prod.fst →
      plan.manifest.verify q e = false → plan.manifest.verify (q ++ ['\r']) e = false → m.verify q e = false := by
  obtain ⟨hm, -, -⟩ := planGenerate_ok.1 hplan
  rcases files_of_applied hconf hrun with ⟨-, rfl⟩ | rfl
  · exact ⟨plan.manifest, hm, fun _ _ _ hv _ => hv⟩
  · rw [changes_eq_batchOf hplan]
    refine ⟨_, load_of_text (Rung.files_put_self _ _ _ _), fun q e hq hv hcr => ?_⟩
    refine verify_reread (oneLine_of_load hm) (nodup_changesOf (nodup_targets _ _ _ _)) (fun c hc => ?_) hq hv hcr
    obtain ⟨t, ht, hchange⟩ := mem_changesOf.1 hc
    exact (of_change hchange).1 ▸ hst t ht

end

/-- What becomes of a target when its plan has no conflict. -/
theorem target_settled {dir : Rung} {m : Manifest} {ts : List Target} {t : Target}
    (hn : (ts.map Target.relname).Nodup) (ht : t ∈ ts) (hr : dir.Readable t.relname)
    (hconf : verdictIn dir m t ≠ .conflict) :
    (∃ content, t.wanted = some content ∧
      (dir.putAll false (batchOf dir m ts)).files t.relname = some (.text content)) ∨
    (t.wanted = none ∧ ((dir.putAll false (batchOf dir m ts)).files t.relname = none ∨
      (t.relname ∉ (batchOf dir m ts).map Prod.fst ∧
        ∃ e, dir.files t.relname = some (.text e) ∧ m.verify t.relname e = false))) := by
  cases hv : verdictIn dir m t with
  | write content reclaimed =>
    refine Or.inl ⟨content, (verdict_eq_write hv).1, ?_⟩
    have hchange : (verdictIn dir m t).change t.relname = some (t.relname, some content) := by
      rw [hv]
      rfl
    exact files_of_change hn ht hchange
  | remove =>
    refine Or.inr ⟨(verdict_eq_remove hv).1, Or.inl ?_⟩
    have hchange : (verdictIn dir m t).change t.relname = some (t.relname, none) := by
      rw [hv]
      rfl
    exact files_of_change hn ht hchange
  | conflict => exact absurd hv hconf
  | keep =>
    have hmem : t.relname ∉ (batchOf dir m ts).map Prod.fst := not_mem_batchOf hn ht (by rw [hv]; rfl)
    obtain ⟨hwanted, hunwanted⟩ := verdict_eq_keep hv
    rw [files_of_no_change hmem, ← Rung.map_textOf hr]
    cases hw : t.wanted with
    | some content => exact Or.inl ⟨content, rfl, by rw [hwanted content hw]; rfl⟩
    | none =>
      refine Or.inr ⟨rfl, ?_⟩
      cases hex : textOf (dir.files t.relname) with
      | none => exact Or.inl rfl
      | some e => exact Or.inr ⟨hmem, e, rfl, hunwanted hw e hex⟩

/-- **Convergence**, when the manifest does not track, under the name of an unwanted file and a carriage
return, the content of that file. -/
theorem generation_converges {dir : Rung} {ctx : RenderCtx} {dropins : ResolvedInput}
    {tweaksEnabled reclaimStale : Bool} {faults : FsFaults}
    (hcr : ∀ m, Manifest.load dir = .ok m →
      ∀ t ∈ targets ctx dropins.toDropinInput tweaksEnabled reclaimStale, t.wanted = none →
        ∀ e, dir.files t.relname = some (.text e) → m.verify (t.relname ++ ['\r']) e = false) :
    Converges dir ctx dropins.toDropinInput tweaksEnabled reclaimStale faults := by
  intro plan hplan hconf out dir' hrun
  obtain ⟨hm, hr, hp⟩ := planGenerate_ok.1 hplan
  have hfiles := @files_of_generation _ _ _ _ _ _ _ _ _ hplan hconf hrun
  obtain ⟨m', hm', hverify⟩ := exists_reload hplan hconf hrun fun t ht =>
    storable_targets (newline_not_mem_unit_string dropins) ht
  rw [hp] at hconf
  generalize plan.manifest = m at *
  have hmani : manifestName ∉ (targets ctx dropins.toDropinInput tweaksEnabled reclaimStale).map Target.relname :=
    manifestName_not_mem_targets _ _ _ _
  have hne : ∀ t ∈ targets ctx dropins.toDropinInput tweaksEnabled reclaimStale, t.relname ≠ manifestName :=
    fun t ht he => hmani (he ▸ List.mem_map_of_mem ht)
  have hsettled := fun t ht =>
    target_settled (nodup_targets _ _ _ _) ht (hr t ht) (conflicts_extend_eq_nil.1 hconf t ht)
  have hwanted : ∀ t ∈ targets ctx dropins.toDropinInput tweaksEnabled reclaimStale, ∀ content,
      t.wanted = some content → dir'.files t.relname = some (.text content) := by
    intro t ht content hw
    rw [hfiles (hne t ht)]
    rcases hsettled t ht with ⟨content', hw', hf⟩ | ⟨hw', -⟩
    · rw [hf, Option.some.inj (hw.symm.trans hw')]
    · exact absurd (hw.symm.trans hw') (by simp)
  have hkeep : ∀ t ∈ targets ctx dropins.toDropinInput tweaksEnabled reclaimStale, t.wanted = none →
      dir'.files t.relname = none ∨ (dir'.files t.relname = dir.files t.relname ∧
        ∃ e, dir.files t.relname = some (.text e) ∧ m.verify t.relname e = false ∧ m'.verify t.relname e = false) := by
    intro t ht hw
    rw [hfiles (hne t ht)]
    rcases hsettled t ht with ⟨content, hw', -⟩ | ⟨-, hf | ⟨hmem, e, he, hv⟩⟩
    · exact absurd (hw.symm.trans hw') (by simp)
    · exact Or.inl hf
    · exact Or.inr ⟨files_of_no_change hmem, e, he, hv, hverify _ e hmem hv (hcr m hm t ht hw e he)⟩
  refine ⟨fun unit hunit => ?_, hwanted, fun t ht hw => ?_, fun q hq hmem => ?_,
    planGenerate_of_keep hm' fun t ht => ?_⟩
  · refine hwanted (writeTarget unit.name (render unit.body ctx)) ?_ _ rfl
    exact List.mem_append_left _ (List.mem_append_left _ (List.mem_map.2 ⟨unit, hunit, rfl⟩))
  · exact (hkeep t ht hw).imp_right fun ⟨hf, e, he, hv, _⟩ => ⟨hf, e, he, hv⟩
  · rw [hfiles hq, files_of_no_change fun h => ?_]
    obtain ⟨c, hc, rfl⟩ := List.mem_map.1 h
    obtain ⟨t, ht, hchange⟩ := mem_changesOf.1 hc
    exact hmem ((of_change hchange).1 ▸ List.mem_map_of_mem ht)
  · cases hw : t.wanted with
    | some content => exact keep_of_wanted hw (hwanted t ht content hw)
    | none => exact keep_of_unwanted hw ((hkeep t ht hw).imp_right fun ⟨hf, e, he, _, hv⟩ => ⟨e, hf.trans he, hv⟩)

/-! ## A foreign tweak -/

def portalTweak : Str := "plasma-xdg-desktop-portal-kde.service.d/order-tweak.conf".toList

theorem portalTweak_mem : portalTweak ∈ tweaks.map UnitTemplate.name := by
  unfold tweaks portalTweak
  simp only [List.map_cons, List.mem_cons, true_or, or_true]

theorem portalTweak_ne_manifestName : portalTweak ≠ manifestName := fun h =>
  manifestName_not_mem_staticNames (h ▸ List.mem_append_right _ portalTweak_mem)

/-- The tweak is one of the targets, and not wanted when tweaks are off. -/
theorem portalTweak_target (ctx : RenderCtx) (dropins : DropinInput) (reclaimStale : Bool) :
    dropinTarget portalTweak none reclaimStale ∈ targets ctx dropins false reclaimStale := by
  obtain ⟨tweak, hmem, hname⟩ := List.mem_map.1 portalTweak_mem
  refine List.mem_append_left _ (List.mem_append_right _ (List.mem_map.2 ⟨tweak, hmem, ?_⟩))
  rw [hname]
  rfl

/-- A tweak, and this manifest. -/
def tweakRung (manifest : Str) : Rung where
  path := "units".toList
  files q :=
    if q = manifestName then some (.text manifest)
    else if q = portalTweak then some (.text "x".toList)
    else none
  log := []

theorem load_tweakRung (manifest : Str) : Manifest.load (tweakRung manifest) = .ok (.parse manifest) :=
  load_of_text (by simp only [tweakRung, if_true])

theorem files_tweakRung {manifest q : Str} (hm : q ≠ manifestName) (ht : q ≠ portalTweak) :
    (tweakRung manifest).files q = none := by
  simp [tweakRung, hm, ht]

theorem files_portalTweak (manifest : Str) : (tweakRung manifest).files portalTweak = some (.text "x".toList) := by
  simp [tweakRung, portalTweak_ne_manifestName]

theorem readable_tweakRung (manifest q : Str) : (tweakRung manifest).Readable q := fun h => by
  simp only [tweakRung] at h
  split at h
  · cases h
  · split at h <;> cases h

/-- The tweak as wsmr had written it; somebody has changed it since. -/
def editedManifest : Str := unlines [hexPadded 16 (fingerprint "y".toList).toNat ++ ' ' :: portalTweak]

theorem getElem?_editedManifest : (Manifest.parse editedManifest).entries[portalTweak ++ ['\r']]? = none := by decide

/-- The tweak that was changed is not wanted, and stays. -/
theorem generation_converges_edited :
    (tweakRung editedManifest).files portalTweak = some (.text "x".toList) ∧
      dropinTarget portalTweak none false ∈ targets usrBin swayInput.toDropinInput false false ∧
      Converges (tweakRung editedManifest) usrBin swayInput.toDropinInput false false
        ⟨fun _ => false, fun _ => false⟩ := by
  refine ⟨files_portalTweak _, portalTweak_target _ _ _, generation_converges fun m hm t ht _ e he => ?_⟩
  obtain rfl := Except.ok.inj ((load_tweakRung editedManifest).symm.trans hm)
  have hne : t.relname ≠ manifestName := fun h =>
    manifestName_not_mem_targets usrBin swayInput.toDropinInput false false (h ▸ List.mem_map_of_mem ht)
  have hname : t.relname = portalTweak := by
    by_contra hother
    rw [files_tweakRung hne hother] at he
    cases he
  rw [hname]
  refine verify_eq_false.2 fun hentry => ?_
  rw [getElem?_editedManifest] at hentry
  cases hentry

/-! ## A carriage return -/

/-- A foreign tweak, and a manifest with its fingerprint under its name and a carriage return. -/
def crRung : Rung :=
  tweakRung (unlines [hexPadded 16 (fingerprint "x".toList).toNat ++ ' ' :: portalTweak ++ ['\r', '\r']])

def crManifest : Manifest :=
  .parse (unlines [hexPadded 16 (fingerprint "x".toList).toNat ++ ' ' :: portalTweak ++ ['\r', '\r']])

theorem load_crRung : Manifest.load crRung = .ok crManifest := load_tweakRung _

theorem getElem?_crManifest : crManifest.entries[portalTweak]? = none ∧
    crManifest.entries[portalTweak ++ ['\r']]? = some (fingerprint "x".toList) := by
  decide

theorem eq_of_portalTweak {t : Target} (ht : t ∈ targets usrBin swayInput.toDropinInput false false)
    (h : t.relname = portalTweak) : t = dropinTarget portalTweak none false :=
  List.inj_on_of_nodup_map (nodup_targets usrBin swayInput.toDropinInput false false) ht
    (portalTweak_target usrBin swayInput.toDropinInput false) h

theorem verdictIn_crRung {t : Target} (ht : t ∈ targets usrBin swayInput.toDropinInput false false) :
    verdictIn crRung crManifest t =
      if t.relname = portalTweak then .keep
      else t.wanted.elim .keep fun content => .write content false := by
  unfold verdictIn
  split
  · rename_i h
    obtain rfl := eq_of_portalTweak ht h
    refine verdict_of_unwanted rfl fun e he => verify_eq_false.2 ?_
    show crManifest.entries[portalTweak]? ≠ _
    rw [getElem?_crManifest.1]
    simp
  · rename_i h
    have hm : t.relname ≠ manifestName := fun he =>
      manifestName_not_mem_targets usrBin swayInput.toDropinInput false false (he ▸ List.mem_map_of_mem ht)
    rw [crRung, files_tweakRung hm h]
    cases hw : t.wanted with
    | none => exact verdict_of_unwanted hw fun e he => absurd he (by simp [textOf])
    | some content => simp [verdict, hw, textOf]

theorem portalTweak_not_graph : portalTweak ∉ graph.map UnitTemplate.name := fun h =>
  List.disjoint_of_nodup_append nodup_staticNames h portalTweak_mem

theorem graph_ne_nil : graph ≠ [] := List.cons_ne_nil _ _

/-- The batch of the first plan is not empty and leaves the tweak alone. -/
theorem batchOf_crRung :
    batchOf crRung crManifest (targets usrBin swayInput.toDropinInput false false) ≠ [] ∧
      ∀ c ∈ batchOf crRung crManifest (targets usrBin swayInput.toDropinInput false false), c.1 ≠ portalTweak := by
  constructor
  · obtain ⟨unit, hunit⟩ := List.exists_mem_of_ne_nil _ graph_ne_nil
    have ht : writeTarget unit.name (render unit.body usrBin) ∈ targets usrBin swayInput.toDropinInput false false :=
      List.mem_append_left _ (List.mem_append_left _ (List.mem_map.2 ⟨unit, hunit, rfl⟩))
    have hne : (writeTarget unit.name (render unit.body usrBin)).relname ≠ portalTweak := fun h =>
      portalTweak_not_graph (h ▸ List.mem_map_of_mem (f := UnitTemplate.name) hunit)
    refine List.ne_nil_of_mem (a := (unit.name, some (render unit.body usrBin)))
      (mem_changesOf.2 ⟨_, ht, ?_⟩)
    rw [verdictIn_crRung ht, if_neg hne]
    rfl
  · intro c hc he
    obtain ⟨t, ht, hchange⟩ := mem_changesOf.1 hc
    have hname : t.relname = portalTweak := (of_change hchange).1.symm.trans he
    rw [verdictIn_crRung ht, if_pos hname] at hchange
    cases hchange

/-- Saved and read again, the manifest has the fingerprint under the name of the tweak. -/
theorem verify_crManifest {cs : List (Str × Option Str)} (hone : (crManifest.after cs []).OneLine)
    (h : portalTweak ∉ cs.map Prod.fst) (hcr : portalTweak ++ ['\r'] ∉ cs.map Prod.fst) :
    (Manifest.parse (crManifest.after cs []).render).verify portalTweak "x".toList = true := by
  have hkept : ∀ {k}, k ∉ cs.map Prod.fst → (crManifest.after cs []).entries[k]? = crManifest.entries[k]? :=
    getElem?_foldl_track_of_not_mem
  have hne : portalTweak ≠ [] := (storable_of_mem_staticNames _ (List.mem_append_right _ portalTweak_mem)).1
  unfold Manifest.verify
  rw [Manifest.getElem?_parse_render_cr hone hne ((hkept h).trans getElem?_crManifest.1)
    ((hkept hcr).trans getElem?_crManifest.2)]
  exact beq_self_eq_true _

/-- The tweak is foreign to the first plan; the second plan removes it. -/
theorem reread_manifest_claims_foreign :
    ¬ Converges crRung usrBin swayInput.toDropinInput false false ⟨fun _ => false, fun _ => false⟩ := by
  intro h
  generalize hts : targets usrBin swayInput.toDropinInput false false = ts
  have hnodup : (ts.map Target.relname).Nodup := hts ▸ nodup_targets _ _ _ _
  have htweak : dropinTarget portalTweak none false ∈ ts := hts ▸ portalTweak_target _ _ _
  have hplan : planGenerate crRung usrBin swayInput.toDropinInput false false =
      .ok (GenerationPlan.extend ⟨[], [], [], [], crManifest⟩ crRung ts) := by
    rw [← hts]
    exact planGenerate_ok.2 ⟨load_crRung, fun t _ => readable_tweakRung _ t.relname, rfl⟩
  have hconf : (GenerationPlan.extend ⟨[], [], [], [], crManifest⟩ crRung ts).conflicts = [] := by
    refine conflicts_extend_eq_nil.2 fun t ht => ?_
    rw [verdictIn_crRung (hts ▸ ht)]
    split
    · nofun
    · cases t.wanted <;> nofun
  obtain ⟨hne, htw⟩ := hts ▸ batchOf_crRung
  have hrun : runFs ⟨fun _ => false, fun _ => false⟩
      (applyGenerate crRung.path (GenerationPlan.extend ⟨[], [], [], [], crManifest⟩ crRung ts)) crRung =
      (.ok ((Batch.start crManifest).pushAll (batchOf crRung crManifest ts) crRung).out,
        (crRung.putAll false (batchOf crRung crManifest ts)).put false manifestName
          (some (crManifest.after (batchOf crRung crManifest ts) []).render)) := by
    rw [applyGenerate_eq, hconf, List.isEmpty_nil, if_pos rfl]
    have hthrough := @runBatch_through ⟨fun _ => false, fun _ => false⟩ crRung crRung.path crManifest
      (batchOf crRung crManifest ts) [] fun _ _ => rfl
    have hempty : (batchOf crRung crManifest ts).isEmpty = false := by simpa using hne
    simp only [hempty, Bool.false_and, Bool.false_eq_true, if_false] at hthrough
    exact hthrough
  obtain ⟨plan, hagain, -, hremoves, -⟩ := (h _ hplan hconf _ _ hrun).again
  obtain ⟨hload, -, hp⟩ := planGenerate_ok.1 hagain
  have hmem : portalTweak ∉ (batchOf crRung crManifest ts).map Prod.fst := fun hc => by
    obtain ⟨c, hc, he⟩ := List.mem_map.1 hc
    exact htw c hc he
  have hmemcr : portalTweak ++ ['\r'] ∉ (batchOf crRung crManifest ts).map Prod.fst := fun hc => by
    obtain ⟨c, hc, he⟩ := List.mem_map.1 hc
    obtain ⟨t, ht, hchange⟩ := mem_changesOf.1 hc
    refine (storable_targets (newline_not_mem_unit_string swayInput) (hts ▸ ht)).2.2 ?_
    rw [← (of_change hchange).1, he]
    exact List.getLast?_concat
  have hst : ∀ c ∈ batchOf crRung crManifest ts, Manifest.Storable c.1 := fun c hc => by
    obtain ⟨t, ht, hchange⟩ := mem_changesOf.1 hc
    exact (of_change hchange).1 ▸ storable_targets (newline_not_mem_unit_string swayInput) (hts ▸ ht)
  have hverify : plan.manifest.verify portalTweak "x".toList = true := by
    have hsaved := load_of_text (Rung.files_put_self (crRung.putAll false (batchOf crRung crManifest ts)) false
      manifestName (some (crManifest.after (batchOf crRung crManifest ts) []).render))
    rw [Except.ok.inj (hload.symm.trans hsaved)]
    exact verify_crManifest (oneLine_after (oneLine_of_load load_crRung) (nodup_changesOf hnodup) hst) hmem hmemcr
  have hfile : ((crRung.putAll false (batchOf crRung crManifest ts)).put false manifestName
      (some (crManifest.after (batchOf crRung crManifest ts) []).render)).files portalTweak =
      some (.text "x".toList) := by
    rw [Rung.files_put_of_ne portalTweak_ne_manifestName, files_of_no_change hmem]
    exact files_portalTweak _
  have hremove : verdictIn ((crRung.putAll false (batchOf crRung crManifest ts)).put false manifestName
      (some (crManifest.after (batchOf crRung crManifest ts) []).render)) plan.manifest
      (dropinTarget portalTweak none false) = .remove := by
    unfold verdictIn
    refine (congrArg (fun data => verdict plan.manifest (dropinTarget portalTweak none false) (textOf data))
      hfile).trans ?_
    exact verdict_of_verified rfl hverify
  rw [hp, hts] at hremoves
  exact removes_extend_eq_nil.1 hremoves _ htweak hremove

end Wsmr
