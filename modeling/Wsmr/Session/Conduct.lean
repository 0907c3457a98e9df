import Wsmr.Session.Accounts
import Wsmr.Session.Exporters
import Wsmr.Session.Prepare

/-!
# What a session process may do

`Disciplined u recorded p` says of a program text that, whatever the answers, it only sets names
that the step before has recorded (to begin with, names of `recorded`) or that are never cleaned up,
unsets kept names if `u` lets it, and leaves the session state alone otherwise. Every exporter is
disciplined, and so is `prepare-env` once its `begin_generation` has returned; up to there it only
looks (`Opening`).
-/

namespace Wsmr

open Text Std Effects

/-! ## Program texts -/

/-- Steps that touch neither the environment nor the session state. -/
def Quiet : Cmd → Prop
  | .systemdVars | .readFile _ | .ask _ => True
  | .writeFile f _ | .removeFile f => f.isState = false
  | _ => False

/-- The names a step records when it succeeds. -/
def Cmd.records : Cmd → Set Str
  | .appendCleanup names => {k | k ∈ names ∧ keepName k = true}
  | _ => ∅

/-- Steps that set recorded names only. -/
def Allowed (u : Bool) (recorded : Set Str) : Cmd → Prop
  | .setSystemdVars vars => ∀ k v : Str, vars[k]? = some v →
      keepName k = true ∧ (k ∈ neverCleanup ∨ k ∈ recorded)
  | .unsetSystemdVars names => u = true ∧ ∀ k ∈ names, keepName k = true
  | .appendCleanup _ => True
  | c => Quiet c

/-- What a process can rely on in an answer: reading the environment gives kept names. -/
def Cmd.Reports : (c : Cmd) → Except Error c.Value → Prop
  | .systemdVars, .ok env => KeptNames env
  | _, _ => True

def Disciplined {α : Type} (u : Bool) (recorded : Set Str) : Prog cmds α → Prop
  | .ret _ => True
  | .op c k => Allowed u recorded c ∧
      ∀ r, c.Reports r → Disciplined u (match r with
        | .ok _ => c.records
        | .error _ => ∅) (k r)

section
variable {α β : Type} {u : Bool} {own own' : Set Str}

theorem Allowed.mono (h : own ⊆ own') : ∀ {c : Cmd}, Allowed u own c → Allowed u own' c
  | .setSystemdVars _, ha => fun k v hv => (ha k v hv).imp_right (Or.imp_right fun ho => h ho)
  | .unsetSystemdVars _, ha => ha
  | .appendCleanup _, ha => ha
  | .systemdVars, ha | .beginGeneration _ _, ha | .endGeneration, ha | .readFile _, ha | .writeFile _ _, ha
  | .removeFile _, ha | .ask _, ha => ha

theorem Quiet.allowed : ∀ {c : Cmd}, Quiet c → Allowed u own c
  | .systemdVars, h | .readFile _, h | .ask _, h | .writeFile _ _, h | .removeFile _, h => h

theorem Disciplined.mono (h : own ⊆ own') : ∀ {p : Prog cmds α}, Disciplined u own p → Disciplined u own' p
  | .ret _, _ => trivial
  | .op _ _, hp => ⟨hp.1.mono h, hp.2⟩

theorem disciplined_bind {f : α → Prog cmds β} : ∀ {p : Prog cmds α} {own : Set Str}, Disciplined u own p →
    (∀ a, Disciplined u ∅ (f a)) → Disciplined u own (p.bind f)
  | .ret a, _, _, hf => (hf a).mono (Set.empty_subset _)
  | .op _ _, _, hp, hf => ⟨hp.1, fun r hr => disciplined_bind (hp.2 r hr) hf⟩

theorem disciplined_quiet_bind {R : α → Prop} {f : α → Prog cmds β} : ∀ {p : Prog cmds α} {own : Set Str},
    p.Uses Quiet R → (∀ a, R a → Disciplined u ∅ (f a)) → Disciplined u own (p.bind f)
  | .ret a, _, hp, hf => (hf a hp).mono (Set.empty_subset _)
  | .op _ _, _, hp, hf => ⟨hp.1.allowed, fun r _ => disciplined_quiet_bind (hp.2 r) hf⟩

/-- Sequencing with `←`. -/
theorem disciplined_ebind {p : Task α} {f : α → Task β} (hp : Disciplined (α := Except Error α) u own p)
    (hf : ∀ a, Disciplined (α := Except Error β) u ∅ (f a)) :
    Disciplined (α := Except Error β) u own (p >>= f : Task β) := by
  rw [Prog.ebind_eq]
  refine disciplined_bind hp fun r => ?_
  cases r with
  | ok a => exact hf a
  | error e => trivial

/-- A task of quiet steps whose result, if any, satisfies `Q`. -/
def QuietTask (Q : α → Prop) (p : Task α) : Prop :=
  Prog.Uses (S := cmds) Quiet (fun r : Except Error α => ∀ a, r = .ok a → Q a) p

theorem quiet_ret {Q : α → Prop} {a : α} (h : Q a) : QuietTask Q (pure a) := by
  rintro b hb
  exact Except.ok.inj hb ▸ h

theorem quiet_throw {Q : α → Prop} {e : Error} : QuietTask Q (throw e) := fun _ => nofun

theorem quiet_call {c : Cmd} (h : Quiet c) : QuietTask (fun _ => True) c.call := ⟨h, fun _ _ _ => trivial⟩

theorem quiet_ask {q : Query} : QuietTask (fun _ => True) (ask q) := quiet_call trivial

theorem quiet_ebind {R : α → Prop} {Q : β → Prop} {p : Task α} {f : α → Task β} (hp : QuietTask R p)
    (hf : ∀ a, R a → QuietTask Q (f a)) : QuietTask Q (p >>= f) :=
  Prog.uses_ebind hp (fun a ha => hf a (ha a rfl)) fun _ _ _ => nofun

theorem quiet_attempt {R : α → Prop} {Q : β → Prop} {p : Task α} {f : Except Error α → Task β}
    (hp : QuietTask R p) (hf : ∀ r, QuietTask Q (f r)) : QuietTask Q (attempt p f) :=
  Prog.uses_bind hp fun r _ => hf r

theorem disciplined_quiet {Q : α → Prop} {p : Task α} (h : QuietTask Q p) :
    Disciplined (α := Except Error α) u own p := by
  rw [← Prog.bind_ret (S := cmds) p]
  exact disciplined_quiet_bind h fun _ _ => trivial

/-- Sequencing with `←` after a quiet program. -/
theorem disciplined_quiet_ebind {R : α → Prop} {p : Task α} {f : α → Task β} (hp : QuietTask R p)
    (hf : ∀ a, R a → Disciplined (α := Except Error β) u ∅ (f a)) :
    Disciplined (α := Except Error β) u own (p >>= f : Task β) := by
  rw [Prog.ebind_eq]
  refine disciplined_quiet_bind hp fun r hr => ?_
  cases r with
  | ok a => exact hf a (hr a rfl)
  | error e => trivial

/-- Sequencing with `←` after one step. -/
theorem disciplined_call {c : Cmd} {f : c.Value → Task β} (hc : Allowed u own c)
    (hf : ∀ a, c.Reports (.ok a) → Disciplined (α := Except Error β) u c.records (f a)) :
    Disciplined (α := Except Error β) u own (c.call >>= f : Task β) := by
  rw [Prog.ebind_eq]
  refine ⟨hc, fun r hr => ?_⟩
  cases r with
  | ok a => exact hf a hr
  | error e => trivial

/-! ## The exporters -/

theorem quiet_notifyReady {narrow : List Str → Task Bool} (h : ∀ units, QuietTask (fun _ => True) (narrow units)) :
    QuietTask (fun _ => True) (notifyReady narrow) := by
  refine quiet_ebind quiet_ask fun activating _ => ?_
  split
  · exact quiet_ask
  · refine quiet_ebind quiet_ask fun units _ => quiet_ebind (h units) fun wide _ => ?_
    split
    · exact quiet_ask
    · exact quiet_ret trivial

theorem mem_records_keys {vars : Env} (h : KeptNames vars) {k v : Str} (hv : vars[k]? = some v) :
    keepName k = true ∧ (k ∈ neverCleanup ∨ k ∈ (Cmd.appendCleanup vars.keys).records) :=
  ⟨h k v hv, Or.inr ⟨ExtTreeMap.mem_keys.2 (by rw [ExtTreeMap.mem_iff_isSome_getElem?, hv]; rfl), h k v hv⟩⟩

/-- **`finalize` records before it sets.** -/
theorem disciplined_finalize (env : Env) (extraVars : List Str) :
    Disciplined (α := Except Error Unit) u own (finalize env extraVars) := by
  unfold finalize
  split
  · trivial
  · refine disciplined_call trivial fun _ _ => disciplined_call (fun k v hv => ?_) fun _ _ =>
      disciplined_quiet (quiet_notifyReady (uses_finalizeNarrows (fun _ => trivial) fun _ _ _ => trivial))
    exact mem_records_keys (keptNames_exportOf env _) hv

theorem quiet_waitenv (expected : Names) (polls : Nat) : QuietTask (fun _ => True) (waitenv expected polls) :=
  uses_waitenv trivial (fun _ _ _ => trivial) expected polls

theorem quiet_startTimeout (unit : Str) : QuietTask (fun _ => True) (startTimeout unit) :=
  quiet_attempt quiet_ask fun _ => quiet_ret trivial

/-- **The readiness watcher records before it sets.** -/
theorem disciplined_readinessWatch (idUnitString waitVarnames : Str) (polls : Option Nat → Nat) :
    Disciplined (α := Except Error Unit) u own (readinessWatch idUnitString waitVarnames polls) := by
  unfold readinessWatch
  refine disciplined_call trivial fun envPre _ => disciplined_quiet_ebind (quiet_startTimeout _) fun timeout _ =>
    disciplined_quiet_ebind (quiet_waitenv _ _) fun _ _ => ?_
  refine disciplined_call trivial fun envPost hpost => ?_
  have hkept : KeptNames (newBindings envPre envPost) := fun k v h => hpost k v (getElem?_of_newBindings h)
  refine disciplined_ebind ?_ fun _ =>
    disciplined_quiet (quiet_notifyReady (uses_watcherNarrows (fun _ => trivial) (fun _ _ _ => trivial) _))
  unfold syncDelta
  split
  · trivial
  · exact disciplined_call trivial fun _ _ => ⟨fun k v hv => mem_records_keys hkept hv, fun _ _ => trivial⟩

theorem disciplined_exporter : ∀ x : Exporter, Disciplined (α := Except Error Unit) u own x.task
  | .finalize env extraVars => disciplined_finalize env extraVars
  | .readinessWatch idUnitString waitVarnames polls => disciplined_readinessWatch idUnitString waitVarnames polls

/-- As long as it is refused to record anything, the process only looks. -/
def Cautious : Prog cmds α → Prop
  | .ret _ => True
  | .op (.appendCleanup _) k => ∀ e, Cautious (k (.error e))
  | .op c k => Quiet c ∧ ∀ r, Cautious (k r)

theorem cautious_quiet_op {c : Cmd} {k : Except Error c.Value → Prog cmds α} (h : Quiet c) :
    Cautious (.op c k) ↔ ∀ r, Cautious (k r) := by
  cases c <;> first | exact and_iff_right h | exact h.elim

theorem cautious_quiet_bind {R : α → Prop} {f : α → Prog cmds β} : ∀ {p : Prog cmds α}, p.Uses Quiet R →
    (∀ a, R a → Cautious (f a)) → Cautious (p.bind f)
  | .ret a, hp, hf => hf a hp
  | .op _ _, hp, hf => (cautious_quiet_op hp.1).2 fun r => cautious_quiet_bind (hp.2 r) hf

theorem cautious_quiet_ebind {R : α → Prop} {p : Task α} {f : α → Task β} (hp : QuietTask R p)
    (hf : ∀ a, Cautious (α := Except Error β) (f a)) : Cautious (α := Except Error β) (p >>= f : Task β) := by
  rw [Prog.ebind_eq]
  refine cautious_quiet_bind hp fun r _ => ?_
  cases r with
  | ok a => exact hf a
  | error e => trivial

theorem cautious_quiet {R : α → Prop} {p : Task α} (h : QuietTask R p) : Cautious (α := Except Error α) p := by
  rw [← Prog.bind_ret (S := cmds) p]
  exact cautious_quiet_bind h fun _ _ => trivial

/-- **An exporter that cannot record does not export.** -/
theorem cautious_exporter : ∀ x : Exporter, Cautious (α := Except Error Unit) x.task
  | .finalize env extraVars => by
    show Cautious (α := Except Error Unit) (finalize env extraVars)
    unfold finalize
    split
    · trivial
    · exact fun _ => trivial
  | .readinessWatch idUnitString waitVarnames polls => by
    show Cautious (α := Except Error Unit) (readinessWatch idUnitString waitVarnames polls)
    unfold readinessWatch
    refine cautious_quiet_ebind (quiet_call trivial) fun envPre => cautious_quiet_ebind (quiet_startTimeout _) fun _ =>
      cautious_quiet_ebind (quiet_waitenv _ _) fun _ => cautious_quiet_ebind (quiet_call trivial) fun envPost => ?_
    have hnotify := quiet_notifyReady (@uses_watcherNarrows Quiet _ (fun _ => trivial) (fun _ _ _ => trivial)
      ("wayland-wm@".toList ++ idUnitString ++ ".service".toList))
    dsimp only [syncDelta]
    by_cases hempty : (newBindings envPre envPost).isEmpty = true
    · rw [if_pos hempty]
      exact cautious_quiet hnotify
    · rw [if_neg hempty]
      exact fun _ => trivial

/-! ## `prepare-env` -/

theorem quiet_runLoader (comp : CompGlobals) (envMerged : Env) (mark : Str) (haveLogin : Bool) :
    QuietTask KeptNames (runLoader comp envMerged mark haveLogin) := by
  refine quiet_ebind (quiet_call rfl) fun _ _ => quiet_ebind quiet_ask fun output _ =>
    quiet_ebind (quiet_call rfl) fun _ _ => ?_
  split
  · exact quiet_throw
  · rename_i parsed hp
    split
    · exact quiet_ret fun k v => keepName_of_parseShellDump hp
    · exact quiet_throw

theorem quiet_deduceSession (envLogin : Env) : QuietTask (fun _ => True) (deduceSession envLogin) := by
  have hwith : ∀ env vt, QuietTask (fun _ => True) (deduceSessionWith env vt) := by
    refine fun env vt => quiet_ebind quiet_ask fun found _ => ?_
    split
    · exact quiet_throw
    · exact quiet_ebind (quiet_call rfl) fun _ _ => quiet_ret trivial
  unfold deduceSession
  split
  · exact quiet_ret trivial
  · split
    · exact hwith _ _
    · refine quiet_ebind (R := fun _ => True) (quiet_ebind quiet_ask fun raw _ => ?_) fun vt _ => hwith _ _
      split
      · exact quiet_ret trivial
      · exact quiet_throw

theorem quiet_ensureBindpid (env : Env) : QuietTask (fun _ => True) (ensureBindpid env) := by
  refine quiet_attempt quiet_ask fun r => ?_
  split
  · exact quiet_ret trivial
  · split
    · exact quiet_ret trivial
    · split
      · exact quiet_ret trivial
      · split
        · exact quiet_ret trivial
        · refine quiet_attempt quiet_ask fun r => ?_
          split
          · exact quiet_ret trivial
          · exact quiet_attempt quiet_ask fun _ => quiet_ret trivial

/-- **`prepare-env` sets what it has recorded**, or never-cleaned-up names. -/
theorem disciplined_applyChanges {envPre envPost : Env} (hpre : KeptNames envPre) (hpost : KeptNames envPost) :
    Disciplined (α := Except Error Unit) true own (applyChanges envPre envPost) := by
  refine disciplined_call trivial fun _ _ => disciplined_ebind ?_ fun _ => ?_
  · split
    · trivial
    · refine ⟨fun k v hv => ?_, fun _ _ => trivial⟩
      have hk := hpost k v (getElem?_of_set hv)
      have hmem : k ∈ (computeChanges envPre envPost).set := by
        rw [ExtTreeMap.mem_iff_isSome_getElem?, hv]; rfl
      refine ⟨hk, ?_⟩
      by_cases hn : k ∈ neverCleanup
      · exact Or.inl hn
      · exact Or.inr ⟨ExtTreeSet.mem_toList.2 ((mem_cleanup _ _ _).2 ⟨hmem, hn⟩), hk⟩
  · split
    · trivial
    · refine ⟨⟨rfl, fun k hk => ?_⟩, fun _ _ => trivial⟩
      obtain ⟨hin, _⟩ := (mem_unset _ _ _).1 (ExtTreeSet.mem_toList.1 hk)
      obtain ⟨v, hv⟩ := Option.isSome_iff_exists.1 (ExtTreeMap.mem_iff_isSome_getElem?.1 hin)
      exact hpre k v hv

/-- The answer shows the environment `pre`. -/
def Cmd.Sees (pre : Env) : (c : Cmd) → Except Error c.Value → Prop
  | .systemdVars, .ok env => env = pre
  | _, _ => True

/-- Up to its `begin_generation` a process only looks; it begins with the snapshot `pre`, which is
what reading the environment gives, is disciplined once it has begun, and stops if that fails. -/
def Opening (pre : Env) : Prog cmds α → Prop
  | .ret _ => True
  | .op (.beginGeneration _ pre') k => pre' = pre ∧ (∀ id, Disciplined true ∅ (k (.ok id))) ∧
      ∀ e, ∃ a, k (.error e) = .ret a
  | .op c k => Quiet c ∧ ∀ r, c.Sees pre r → Opening pre (k r)

theorem opening_quiet_op {pre : Env} {c : Cmd} {k : Except Error c.Value → Prog cmds α} (h : Quiet c) :
    Opening pre (.op c k) ↔ ∀ r, c.Sees pre r → Opening pre (k r) := by
  cases c <;> first | exact and_iff_right h | exact h.elim

theorem opening_quiet_bind {pre : Env} {R : α → Prop} {f : α → Prog cmds β} : ∀ {p : Prog cmds α},
    p.Uses Quiet R → (∀ a, R a → Opening pre (f a)) → Opening pre (p.bind f)
  | .ret a, hp, hf => hf a hp
  | .op _ _, hp, hf => (opening_quiet_op hp.1).2 fun r _ => opening_quiet_bind (hp.2 r) hf

theorem opening_quiet_ebind {pre : Env} {R : α → Prop} {p : Task α} {f : α → Task β} (hp : QuietTask R p)
    (hf : ∀ a, Opening (α := Except Error β) pre (f a)) : Opening (α := Except Error β) pre (p >>= f : Task β) := by
  rw [Prog.ebind_eq]
  refine opening_quiet_bind hp fun r _ => ?_
  cases r with
  | ok a => exact hf a
  | error e => trivial

/-- **`prepare-env` begins with the environment it has read.** -/
theorem opening_prepareEnv {pre : Env} (hpre : KeptNames pre) (comp : CompGlobals) (id mark : Fin 8 → UInt8) :
    Opening (α := Except Error Unit) pre (prepareEnv comp id mark) := by
  refine opening_quiet_ebind (quiet_call trivial) fun text => opening_quiet_ebind (quiet_call rfl) fun _ =>
    opening_quiet_ebind (quiet_deduceSession _) fun envLogin =>
    opening_quiet_ebind (quiet_ensureBindpid _) fun _ => ?_
  unfold prepareActivation
  rw [Prog.ebind_eq]
  refine (opening_quiet_op (c := .systemdVars) trivial).2 fun r hr => ?_
  cases r with
  | error e => trivial
  | ok envPre =>
    obtain rfl : envPre = pre := hr
    show Opening (α := Except Error Unit) _ (_ >>= _ : Task Unit)
    rw [Prog.ebind_eq]
    refine ⟨rfl, fun g => ?_, fun e => ⟨_, rfl⟩⟩
    exact disciplined_quiet_ebind (quiet_runLoader _ _ _ _) fun envPost hpost =>
      disciplined_applyChanges hpre hpost

end

end Wsmr
