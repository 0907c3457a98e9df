import Wsmr.Comp
import Wsmr.Units.Escape
import Wsmr.Units.Manifest
import Wsmr.Units.Templates

/-!
# Planning generation and removal (`src/units/plan.rs`)

A plan is made by looking only. For every file it wants, or wants gone (a `Target`), `plan_generate`
decides by what is there and whether the manifest verifies it (`verdict`). `plan_remove_all` goes
through the tracked drop-ins. `planGenerate_ok` and `planRemoveAll_ok` say what a plan then holds.
-/

namespace Wsmr

open Text Std

structure PlannedWrite where
  relname : Str
  content : Str

structure PlannedRemove where
  relname : Str

structure Conflict where
  relname : Str
  reason : Str

structure GenerationPlan where
  writes : List PlannedWrite
  removes : List PlannedRemove
  conflicts : List Conflict
  reclaimed : List Str
  manifest : Manifest

/-- Nothing to do, as far as it goes without a conflict. -/
def GenerationPlan.isEmpty (plan : GenerationPlan) : Bool := plan.writes.isEmpty && plan.removes.isEmpty

structure RemovalPlan where
  removes : List PlannedRemove
  skipped : List Conflict
  manifest : Manifest

/-! ## Generation -/

/-- A file that is wanted with some content, or not wanted. -/
structure Target where
  relname : Str
  wanted : Option Str
  /-- Whether a foreign file there is overwritten. -/
  reclaim : Bool
  reason : Str

inductive Verdict where
  | keep
  | write (content : Str) (reclaimed : Bool)
  | remove
  | conflict
  deriving DecidableEq

def verdict (manifest : Manifest) (t : Target) (existing : Option Str) : Verdict :=
  match existing, t.wanted with
  | none, some content => .write content false
  | none, none => .keep
  | some existing, some content =>
    if existing = content then .keep
    else if manifest.verify t.relname existing then .write content false
    else if t.reclaim then .write content true
    else .conflict
  | some existing, none => if manifest.verify t.relname existing then .remove else .keep

def GenerationPlan.add (plan : GenerationPlan) (t : Target) : Verdict → GenerationPlan
  | .keep => plan
  | .write content reclaimed =>
    { plan with
      writes := plan.writes ++ [⟨t.relname, content⟩]
      reclaimed := if reclaimed then plan.reclaimed ++ [t.relname] else plan.reclaimed }
  | .remove => { plan with removes := plan.removes ++ [⟨t.relname⟩] }
  | .conflict => { plan with conflicts := plan.conflicts ++ [⟨t.relname, t.reason⟩] }

def classify (dir : Rung) (plan : GenerationPlan) (t : Target) : Except Error GenerationPlan := do
  let existing ← dir.readToString t.relname
  return plan.add t (verdict plan.manifest t existing)

def writeTarget (relname content : Str) : Target :=
  ⟨relname, some content, false,
    "existing file is not a wsmr-owned generation (unknown origin, or edited since wsmr wrote it)".toList⟩

def dropinTarget (relname : Str) (wanted : Option Str) (reclaimStale : Bool) : Target :=
  ⟨relname, wanted, reclaimStale,
    "existing drop-in is not a wsmr-owned generation (unknown origin, or edited since wsmr wrote it)".toList⟩

def classifyWrite (dir : Rung) (relname content : Str) (plan : GenerationPlan) : Except Error GenerationPlan :=
  classify dir plan (writeTarget relname content)

def classifyDropin (dir : Rung) (relname : Str) (wanted : Option Str) (reclaimStale : Bool)
    (plan : GenerationPlan) : Except Error GenerationPlan :=
  classify dir plan (dropinTarget relname wanted reclaimStale)

def dropinSuffix : Str := ".service.d/50_custom.conf".toList
def preloaderPath (idUnitString : Str) : Str := "wayland-wm-env@".toList ++ idUnitString ++ dropinSuffix
def servicePath (idUnitString : Str) : Str := "wayland-wm@".toList ++ idUnitString ++ dropinSuffix

def planGenerate (dir : Rung) (ctx : RenderCtx) (dropins : DropinInput) (tweaksEnabled reclaimStale : Bool) :
    Except Error GenerationPlan := do
  let manifest ← Manifest.load dir
  let plan ← graph.foldlM (fun plan unit => classifyWrite dir unit.name (render unit.body ctx) plan)
    ⟨[], [], [], [], manifest⟩
  let plan ← tweaks.foldlM (fun plan tweak => classifyDropin dir tweak.name
    (if tweaksEnabled then some (render tweak.body ctx) else none) reclaimStale plan) plan
  let plan ← classifyDropin dir (preloaderPath dropins.idUnitString) (preloaderDropin dropins) reclaimStale plan
  classifyDropin dir (servicePath dropins.idUnitString) (serviceDropin dropins) reclaimStale plan

/-! ## Removal -/

def isTweak (relname : Str) : Bool := tweaks.any fun t => t.name == relname

def isCompositorDropin (relname : Str) : Bool :=
  dropinSuffix <:+ relname && ("wayland-wm@".toList <+: relname || "wayland-wm-env@".toList <+: relname)

def isRemovableDropin (relname : Str) : Bool := isTweak relname || isCompositorDropin relname

def markOf (relname : Str) : Option Str :=
  if isTweak relname then some "tweaks".toList
  else ["wayland-wm-env@".toList, "wayland-wm@".toList].findSome? fun p =>
    (stripPrefix p relname).bind (stripSuffix dropinSuffix)

def marked (marks : Option (List Str)) (relname : Str) : Bool :=
  match marks with
  | none => true
  | some ms => (markOf relname).any ms.contains

def RemovalPlan.add (plan : RemovalPlan) (relname : Str) (existing : Option Str) : RemovalPlan :=
  match existing with
  | some existing =>
    if plan.manifest.verify relname existing then { plan with removes := plan.removes ++ [⟨relname⟩] }
    else { plan with skipped := plan.skipped ++ [⟨relname,
      "tracked path no longer matches what wsmr wrote (drifted or tampered) — left in place".toList⟩] }
  -- gone already: still to be forgotten
  | none => { plan with removes := plan.removes ++ [⟨relname⟩] }

def planRemoveAll (dir : Rung) (marks : Option (List Str)) : Except Error RemovalPlan := do
  let manifest ← Manifest.load dir
  let owned := (manifest.tracked.filter isRemovableDropin).filter (marked marks)
  owned.foldlM (fun plan relname => do
    let existing ← dir.readToString relname
    return plan.add relname existing) ⟨[], [], manifest⟩

/-! ## What a plan holds -/

/-- The files a generation decides about. -/
def targets (ctx : RenderCtx) (dropins : DropinInput) (tweaksEnabled reclaimStale : Bool) : List Target :=
  (graph.map fun unit => writeTarget unit.name (render unit.body ctx)) ++
    (tweaks.map fun tweak => dropinTarget tweak.name
      (if tweaksEnabled then some (render tweak.body ctx) else none) reclaimStale) ++
    [dropinTarget (preloaderPath dropins.idUnitString) (preloaderDropin dropins) reclaimStale,
      dropinTarget (servicePath dropins.idUnitString) (serviceDropin dropins) reclaimStale]

theorem planGenerate_eq (dir : Rung) (ctx : RenderCtx) (dropins : DropinInput) (tweaksEnabled reclaimStale : Bool) :
    planGenerate dir ctx dropins tweaksEnabled reclaimStale =
      Manifest.load dir >>= fun manifest =>
        (targets ctx dropins tweaksEnabled reclaimStale).foldlM (classify dir) ⟨[], [], [], [], manifest⟩ := by
  simp only [planGenerate, targets, List.foldlM_append, List.foldlM_map, classifyWrite, classifyDropin,
    List.foldlM_cons, List.foldlM_nil, bind_assoc, bind_pure]

def Verdict.written : Verdict → Option Str
  | .write content _ => some content
  | _ => none

def Verdict.reclaims : Verdict → Bool
  | .write _ reclaimed => reclaimed
  | _ => false

/-- The verdict about a target on the file that is there. -/
def verdictIn (dir : Rung) (manifest : Manifest) (t : Target) : Verdict :=
  verdict manifest t (textOf (dir.files t.relname))

/-- A plan and the verdicts about further targets. -/
def GenerationPlan.extend (plan : GenerationPlan) (dir : Rung) (ts : List Target) : GenerationPlan where
  writes := plan.writes ++ ts.filterMap fun t => (verdictIn dir plan.manifest t).written.map (PlannedWrite.mk t.relname)
  removes := plan.removes ++
    (ts.filter fun t => verdictIn dir plan.manifest t == .remove).map fun t => PlannedRemove.mk t.relname
  conflicts := plan.conflicts ++
    (ts.filter fun t => verdictIn dir plan.manifest t == .conflict).map fun t => Conflict.mk t.relname t.reason
  reclaimed := plan.reclaimed ++ (ts.filter fun t => (verdictIn dir plan.manifest t).reclaims).map Target.relname
  manifest := plan.manifest

theorem extend_cons (dir : Rung) (plan : GenerationPlan) (t : Target) (ts : List Target) :
    plan.extend dir (t :: ts) = (plan.add t (verdictIn dir plan.manifest t)).extend dir ts := by
  cases h : verdictIn dir plan.manifest t with
  | write content reclaimed =>
    cases reclaimed <;>
      simp [GenerationPlan.extend, GenerationPlan.add, h, Verdict.written, Verdict.reclaims]
  | keep | remove | conflict =>
    simp [GenerationPlan.extend, GenerationPlan.add, h, Verdict.written, Verdict.reclaims]

theorem classify_eq_ok {dir : Rung} {plan plan' : GenerationPlan} {t : Target} :
    classify dir plan t = .ok plan' ↔
      dir.Readable t.relname ∧ plan' = plan.add t (verdictIn dir plan.manifest t) := by
  unfold classify verdictIn
  cases h : dir.readToString t.relname with
  | error e =>
    have hno : ¬ dir.Readable t.relname := fun hr => by
      rw [Rung.readToString_eq_ok.2 ⟨hr, rfl⟩] at h
      cases h
    simp [bind, Except.bind, hno]
  | ok existing =>
    obtain ⟨hr, rfl⟩ := Rung.readToString_eq_ok.1 h
    simp [bind, Except.bind, pure, Except.pure, hr, eq_comm]

theorem foldlM_classify_eq_ok {dir : Rung} : ∀ {ts : List Target} {plan plan' : GenerationPlan},
    ts.foldlM (classify dir) plan = .ok plan' ↔
      (∀ t ∈ ts, dir.Readable t.relname) ∧ plan' = plan.extend dir ts
  | [], plan, plan' => by
    simp only [List.foldlM_nil, pure, Except.pure, Except.ok.injEq, GenerationPlan.extend, List.filterMap_nil,
      List.filter_nil, List.map_nil, List.append_nil, List.not_mem_nil, false_implies, implies_true, true_and]
    exact eq_comm
  | t :: ts, plan, plan' => by
    rw [List.foldlM_cons, List.forall_mem_cons, extend_cons]
    constructor
    · intro h
      cases hc : classify dir plan t with
      | error e =>
        rw [hc] at h
        cases h
      | ok plan₁ =>
        rw [hc] at h
        obtain ⟨hr, rfl⟩ := classify_eq_ok.1 hc
        obtain ⟨hrs, rfl⟩ := foldlM_classify_eq_ok.1 h
        exact ⟨⟨hr, hrs⟩, rfl⟩
    · rintro ⟨⟨hr, hrs⟩, rfl⟩
      rw [classify_eq_ok.2 ⟨hr, rfl⟩]
      exact foldlM_classify_eq_ok.2 ⟨hrs, rfl⟩

/-- **The plan of a generation**: every target can be read, and goes where its verdict says. -/
theorem planGenerate_ok {dir : Rung} {ctx : RenderCtx} {dropins : DropinInput} {tweaksEnabled reclaimStale : Bool}
    {plan : GenerationPlan} : planGenerate dir ctx dropins tweaksEnabled reclaimStale = .ok plan ↔
      Manifest.load dir = .ok plan.manifest ∧
        (∀ t ∈ targets ctx dropins tweaksEnabled reclaimStale, dir.Readable t.relname) ∧
        plan = GenerationPlan.extend ⟨[], [], [], [], plan.manifest⟩ dir
          (targets ctx dropins tweaksEnabled reclaimStale) := by
  rw [planGenerate_eq]
  cases Manifest.load dir with
  | error e => simp [bind, Except.bind]
  | ok manifest =>
    refine foldlM_classify_eq_ok.trans ⟨?_, ?_⟩
    · rintro ⟨hr, rfl⟩
      exact ⟨rfl, hr, rfl⟩
    · rintro ⟨hm, hr, hp⟩
      obtain rfl := Except.ok.inj hm
      exact ⟨hr, hp⟩

/-! ### A plan as a batch of changes -/

/-- The files the plan changes, in the order of `apply_generate`. -/
def changesOf (writes : List PlannedWrite) (removes : List PlannedRemove) : List (Str × Option Str) :=
  writes.map (fun w => (w.relname, some w.content)) ++ removes.map fun r => (r.relname, none)

/-- The change a verdict asks for. -/
def Verdict.change (relname : Str) : Verdict → Option (Str × Option Str)
  | .write content _ => some (relname, some content)
  | .remove => some (relname, none)
  | _ => none

variable {dir : Rung} {manifest : Manifest} {ts : List Target}

theorem mem_changesOf {c : Str × Option Str} :
    c ∈ changesOf (GenerationPlan.extend ⟨[], [], [], [], manifest⟩ dir ts).writes
        (GenerationPlan.extend ⟨[], [], [], [], manifest⟩ dir ts).removes ↔
      ∃ t ∈ ts, (verdictIn dir manifest t).change t.relname = some c := by
  simp only [changesOf, GenerationPlan.extend, List.nil_append, List.mem_append, List.map_map, List.mem_map,
    List.mem_filter, List.mem_filterMap, Function.comp_apply]
  constructor
  · rintro (⟨w, ⟨t, ht, hw⟩, rfl⟩ | ⟨t, ⟨ht, hv⟩, rfl⟩)
    · refine ⟨t, ht, ?_⟩
      cases hv : verdictIn dir manifest t with
      | write content reclaimed =>
        simp only [hv, Verdict.written, Option.map_some, Option.some.injEq] at hw
        subst hw
        rfl
      | keep | remove | conflict => simp [hv, Verdict.written] at hw
    · exact ⟨t, ht, by rw [beq_iff_eq.1 hv]; rfl⟩
  · rintro ⟨t, ht, hc⟩
    cases hv : verdictIn dir manifest t with
    | write content reclaimed =>
      simp only [hv, Verdict.change, Option.some.injEq] at hc
      exact Or.inl ⟨⟨t.relname, content⟩, ⟨t, ht, by simp [hv, Verdict.written]⟩, hc⟩
    | remove =>
      simp only [hv, Verdict.change, Option.some.injEq] at hc
      exact Or.inr ⟨t, ⟨ht, by simp [hv]⟩, hc⟩
    | keep | conflict => simp [hv, Verdict.change] at hc

theorem names_of_writes : ((ts.filterMap fun t => (verdictIn dir manifest t).written.map
    (PlannedWrite.mk t.relname)).map fun w => w.relname) =
      (ts.filter fun t => (verdictIn dir manifest t).written.isSome).map Target.relname := by
  induction ts with
  | nil => rfl
  | cons t ts ih => cases hv : (verdictIn dir manifest t).written <;> simp [hv, ih]

/-- Targets of different names make changes of different names. -/
theorem nodup_changesOf (h : (ts.map Target.relname).Nodup) :
    ((changesOf (GenerationPlan.extend ⟨[], [], [], [], manifest⟩ dir ts).writes
      (GenerationPlan.extend ⟨[], [], [], [], manifest⟩ dir ts).removes).map Prod.fst).Nodup := by
  have hnames : (changesOf (GenerationPlan.extend ⟨[], [], [], [], manifest⟩ dir ts).writes
      (GenerationPlan.extend ⟨[], [], [], [], manifest⟩ dir ts).removes).map Prod.fst =
      (ts.filter fun t => (verdictIn dir manifest t).written.isSome).map Target.relname ++
        (ts.filter fun t => verdictIn dir manifest t == .remove).map Target.relname := by
    rw [← names_of_writes]
    simp [changesOf, GenerationPlan.extend, Function.comp_def]
  rw [hnames, List.nodup_append]
  refine ⟨(List.filter_sublist.map _).nodup h, (List.filter_sublist.map _).nodup h, ?_⟩
  intro a ha b hb
  rintro rfl
  obtain ⟨t, ht, rfl⟩ := List.mem_map.1 ha
  obtain ⟨t', ht', he⟩ := List.mem_map.1 hb
  rw [List.mem_filter] at ht ht'
  obtain rfl := List.inj_on_of_nodup_map h ht'.1 ht.1 he
  have hrem := beq_iff_eq.1 ht'.2
  simp [hrem, Verdict.written] at ht

/-! ### The names of the targets -/

def staticNames : List Str := graph.map UnitTemplate.name ++ tweaks.map UnitTemplate.name

theorem names_of_targets (ctx : RenderCtx) (dropins : DropinInput) (tweaksEnabled reclaimStale : Bool) :
    (targets ctx dropins tweaksEnabled reclaimStale).map Target.relname =
      staticNames ++ [preloaderPath dropins.idUnitString, servicePath dropins.idUnitString] := by
  simp only [targets, staticNames, writeTarget, dropinTarget, List.map_append, List.map_map, Function.comp_def,
    List.map_cons, List.map_nil]

/-- The names are different ones, on one line each, and neither that of a drop-in nor that of the manifest. -/
theorem staticNames_spec : staticNames.Nodup ∧ ∀ n ∈ staticNames,
    ¬ dropinSuffix <:+ n ∧ n ≠ manifestName ∧ n ≠ [] ∧ '\n' ∉ n ∧ n.getLast? ≠ some '\r' := by
  -- The literals are replaced by their characters: it takes long to decode them.
  unfold staticNames graph tweaks dropinSuffix manifestName
  simp only [List.map_cons, List.map_nil, List.cons_append, List.nil_append]
  repeat rw [String.toList_ofList]
  decide

theorem nodup_staticNames : staticNames.Nodup := staticNames_spec.1

theorem not_suffix_of_mem_staticNames : ∀ n ∈ staticNames, ¬ dropinSuffix <:+ n := fun n hn =>
  (staticNames_spec.2 n hn).1

theorem manifestName_not_mem_staticNames : manifestName ∉ staticNames := fun h => (staticNames_spec.2 _ h).2.1 rfl

theorem storable_of_mem_staticNames : ∀ n ∈ staticNames, n ≠ [] ∧ '\n' ∉ n ∧ n.getLast? ≠ some '\r' := fun n hn =>
  (staticNames_spec.2 n hn).2.2

theorem not_suffix_manifestName : ¬ dropinSuffix <:+ manifestName := by decide

theorem suffix_preloaderPath (u : Str) : dropinSuffix <:+ preloaderPath u := List.suffix_append _ _
theorem suffix_servicePath (u : Str) : dropinSuffix <:+ servicePath u := List.suffix_append _ _

theorem preloaderPath_ten (u : Str) : (preloaderPath u)[10]? = some '-' := by
  have hlt : 10 < "wayland-wm-env@".toList.length := by decide
  have hten : "wayland-wm-env@".toList[10]? = some '-' := by decide
  unfold preloaderPath
  rw [List.append_assoc, List.getElem?_append_left hlt]
  exact hten

theorem servicePath_ten (u : Str) : (servicePath u)[10]? = some '@' := by
  have hlt : 10 < "wayland-wm@".toList.length := by decide
  have hten : "wayland-wm@".toList[10]? = some '@' := by decide
  unfold servicePath
  rw [List.append_assoc, List.getElem?_append_left hlt]
  exact hten

/-- The two drop-ins differ right after `wayland-wm`, whatever the compositors. -/
theorem preloaderPath_ne_servicePath (u v : Str) : preloaderPath u ≠ servicePath v := by
  intro h
  have hten := preloaderPath_ten u
  rw [h, servicePath_ten] at hten
  exact absurd hten (by decide)

theorem nodup_targets (ctx : RenderCtx) (dropins : DropinInput) (tweaksEnabled reclaimStale : Bool) :
    ((targets ctx dropins tweaksEnabled reclaimStale).map Target.relname).Nodup := by
  rw [names_of_targets, List.nodup_append]
  refine ⟨nodup_staticNames, by simp [preloaderPath_ne_servicePath], ?_⟩
  intro a ha b hb hab
  subst hab
  simp only [List.mem_cons, List.not_mem_nil, or_false] at hb
  rcases hb with rfl | rfl
  · exact not_suffix_of_mem_staticNames _ ha (suffix_preloaderPath _)
  · exact not_suffix_of_mem_staticNames _ ha (suffix_servicePath _)

theorem manifestName_not_mem_targets (ctx : RenderCtx) (dropins : DropinInput) (tweaksEnabled reclaimStale : Bool) :
    manifestName ∉ (targets ctx dropins tweaksEnabled reclaimStale).map Target.relname := by
  rw [names_of_targets]
  simp only [List.mem_append, List.mem_cons, List.not_mem_nil, or_false, not_or]
  refine ⟨manifestName_not_mem_staticNames, fun h => ?_, fun h => ?_⟩
  · exact not_suffix_manifestName (h ▸ suffix_preloaderPath _)
  · exact not_suffix_manifestName (h ▸ suffix_servicePath _)

theorem dropinSuffix_ne_nil : dropinSuffix ≠ [] := by decide

theorem newline_not_mem_dropinSuffix : '\n' ∉ dropinSuffix := by decide

theorem getLast?_dropinSuffix : dropinSuffix.getLast? = some 'f' := by decide

theorem storable_dropin {p u : Str} (hp : '\n' ∉ p) (hu : '\n' ∉ u) : Manifest.Storable (p ++ u ++ dropinSuffix) := by
  refine ⟨List.append_ne_nil_of_right_ne_nil _ dropinSuffix_ne_nil, ?_, ?_⟩
  · simp only [List.mem_append, not_or]
    exact ⟨⟨hp, hu⟩, newline_not_mem_dropinSuffix⟩
  · rw [List.getLast?_append_of_ne_nil _ dropinSuffix_ne_nil, getLast?_dropinSuffix]
    decide

/-- The manifest can hold every target of a compositor whose unit string is on one line. -/
theorem storable_targets {ctx : RenderCtx} {dropins : DropinInput} {tweaksEnabled reclaimStale : Bool}
    (hu : '\n' ∉ dropins.idUnitString) {t : Target}
    (ht : t ∈ targets ctx dropins tweaksEnabled reclaimStale) : Manifest.Storable t.relname := by
  have hn := List.mem_map_of_mem (f := Target.relname) ht
  rw [names_of_targets, List.mem_append] at hn
  rcases hn with hn | hn
  · exact storable_of_mem_staticNames _ hn
  · simp only [List.mem_cons, List.not_mem_nil, or_false] at hn
    rcases hn with h | h
    · rw [h]
      exact storable_dropin (by decide) hu
    · rw [h]
      exact storable_dropin (by decide) hu

/-! ### The plan of a removal -/

/-- The tracked files that the marks select, among those that can be removed at all. -/
def selected (manifest : Manifest) (marks : Option (List Str)) : List Str :=
  (manifest.tracked.filter isRemovableDropin).filter (marked marks)

/-- Gone already, or still what wsmr has written. -/
def removable (dir : Rung) (manifest : Manifest) (relname : Str) : Bool :=
  (textOf (dir.files relname)).all (manifest.verify relname)

/-- A removal plan after further files. -/
def RemovalPlan.extend (plan : RemovalPlan) (dir : Rung) (names : List Str) : RemovalPlan where
  removes := plan.removes ++ (names.filter (removable dir plan.manifest)).map PlannedRemove.mk
  skipped := plan.skipped ++ (names.filter fun n => !removable dir plan.manifest n).map fun n => Conflict.mk n
    "tracked path no longer matches what wsmr wrote (drifted or tampered) — left in place".toList
  manifest := plan.manifest

theorem removal_extend_cons (plan : RemovalPlan) (n : Str) (names : List Str) :
    plan.extend dir (n :: names) = (plan.add n (textOf (dir.files n))).extend dir names := by
  unfold RemovalPlan.extend RemovalPlan.add
  generalize "tracked path no longer matches what wsmr wrote (drifted or tampered) — left in place".toList = reason
  cases hf : textOf (dir.files n) with
  | none => simp [removable, hf]
  | some existing => cases hv : plan.manifest.verify n existing <;> simp [removable, hf, hv]

theorem foldlM_removal_eq_ok : ∀ {names : List Str} {plan plan' : RemovalPlan},
    names.foldlM (fun plan relname => do
      let existing ← dir.readToString relname
      return plan.add relname existing) plan = .ok plan' ↔
      (∀ n ∈ names, dir.Readable n) ∧ plan' = plan.extend dir names
  | [], plan, plan' => by
    simp only [List.foldlM_nil, pure, Except.pure, Except.ok.injEq, RemovalPlan.extend, List.filter_nil,
      List.map_nil, List.append_nil, List.not_mem_nil, false_implies, implies_true, true_and]
    exact eq_comm
  | n :: names, plan, plan' => by
    rw [List.foldlM_cons, List.forall_mem_cons, removal_extend_cons]
    cases hr : dir.readToString n with
    | error e =>
      have hno : ¬ dir.Readable n := fun h => by
        rw [Rung.readToString_eq_ok.2 ⟨h, rfl⟩] at hr
        cases hr
      simp [bind, Except.bind, hno]
    | ok existing =>
      obtain ⟨hread, rfl⟩ := Rung.readToString_eq_ok.1 hr
      rw [and_assoc, and_iff_right hread]
      exact foldlM_removal_eq_ok

/-- **The plan of a removal**: every selected file can be read; what is gone or verified is removed, the
rest is skipped. -/
theorem planRemoveAll_ok {dir : Rung} {marks : Option (List Str)} {plan : RemovalPlan} :
    planRemoveAll dir marks = .ok plan ↔
      Manifest.load dir = .ok plan.manifest ∧ (∀ n ∈ selected plan.manifest marks, dir.Readable n) ∧
        plan = RemovalPlan.extend ⟨[], [], plan.manifest⟩ dir (selected plan.manifest marks) := by
  unfold planRemoveAll
  cases Manifest.load dir with
  | error e => simp [bind, Except.bind]
  | ok manifest =>
    refine foldlM_removal_eq_ok.trans ⟨?_, ?_⟩
    · rintro ⟨hr, rfl⟩
      exact ⟨rfl, hr, rfl⟩
    · rintro ⟨hm, hr, hp⟩
      obtain rfl := Except.ok.inj hm
      exact ⟨hr, hp⟩

theorem nodup_selected {marks : Option (List Str)} : (selected manifest marks).Nodup :=
  (ExtTreeMap.nodup_keys.filter _).filter _

/-! ### Verdicts -/

variable {t : Target} {existing : Option Str}

theorem verdict_eq_write {content : Str} {reclaimed : Bool}
    (h : verdict manifest t existing = .write content reclaimed) : t.wanted = some content ∧
      ∀ e, existing = some e → manifest.verify t.relname e = true ∨ t.reclaim = true := by
  unfold verdict at h
  split at h
  · rename_i content' _ hw
    cases h
    exact ⟨hw, fun e he => absurd he (by simp)⟩
  · cases h
  · rename_i e content' hw
    split at h
    · cases h
    · split at h
      · rename_i hv
        cases h
        exact ⟨hw, fun e' he => Or.inl (Option.some.inj he ▸ hv)⟩
      · split at h
        · rename_i hr
          cases h
          exact ⟨hw, fun _ _ => Or.inr hr⟩
        · cases h
  · split at h <;> cases h

theorem verdict_eq_remove (h : verdict manifest t existing = .remove) : t.wanted = none ∧
    ∃ e, existing = some e ∧ manifest.verify t.relname e = true := by
  unfold verdict at h
  split at h
  · cases h
  · cases h
  · split at h
    · cases h
    · split at h
      · cases h
      · split at h <;> cases h
  · rename_i e hw
    split at h
    · rename_i hv
      exact ⟨hw, e, rfl, hv⟩
    · cases h

/-- What stands behind every change of a plan: the file is missing, verified or reclaimed. -/
theorem of_change {c : Str × Option Str} (h : (verdictIn dir manifest t).change t.relname = some c) :
    c.1 = t.relname ∧ c.2 = t.wanted ∧
      ∀ e, textOf (dir.files t.relname) = some e → manifest.verify t.relname e = true ∨
        (t.reclaim = true ∧ t.wanted ≠ none) := by
  unfold verdictIn at h
  cases hv : verdict manifest t (textOf (dir.files t.relname)) with
  | write content reclaimed =>
    obtain ⟨hw, hown⟩ := verdict_eq_write hv
    rw [hv] at h
    obtain rfl := Option.some.inj h
    exact ⟨rfl, hw.symm, fun e he => (hown e he).imp_right fun hr => ⟨hr, by simp [hw]⟩⟩
  | remove =>
    obtain ⟨hw, e, he, hown⟩ := verdict_eq_remove hv
    rw [hv] at h
    obtain rfl := Option.some.inj h
    refine ⟨rfl, hw.symm, fun e' he' => Or.inl ?_⟩
    rw [he] at he'
    exact Option.some.inj he' ▸ hown
  | keep | conflict =>
    rw [hv] at h
    cases h

/-! ### Compositors -/

/-- The input of `50_custom.conf` for a compositor that has been resolved. -/
structure ResolvedInput extends DropinInput where
  wm_id : isWmId id = true
  unit_string : idUnitString = simpleSystemdEscape id false

theorem newline_not_mem_unit_string (dropins : ResolvedInput) : '\n' ∉ dropins.idUnitString := by
  rw [dropins.unit_string]
  intro h
  exact absurd (isEscaped_of_mem h) (by decide)

end Wsmr
