import Wsmr.Lib.Checks
import Wsmr.Session.Exporters

/-!
# The announcement of readiness (`src/session/finalize.rs`, `exec.rs`)

systemd takes the graphical session for up when one of the exporters runs `systemd-notify`, so that must not come
before the variables are there.

* `readiness_last` — whatever is answered, the announcement is the last call of a run, and comes after every
  variable to be exported has been recorded and set. The watcher has seen all expected variables before.
* `display_before_announcement` — in particular, it has seen `WAYLAND_DISPLAY`.
-/

namespace Wsmr

open Text Std Effects Prog

instance : Inhabited ((c : Cmd) → Except Error c.Value) := ⟨fun _ => .error .dbus⟩

/-- The calls of a run of an exporter. -/
abbrev Calls := List (Prog.Call cmds)

def Cmd.Announces : Cmd → Prop
  | .ask (.execSystemdNotify _) => True
  | _ => False

def Silent (done : Calls) : Prop := ∀ c ∈ done, ¬ c.1.Announces

/-- A part of an exporter that does not announce anything. -/
abbrev SilentTask {α : Type} (p : Task α) : Prop :=
  Prog.Uses (S := cmds) (α := Except Error α) (fun c => ¬ c.Announces) (fun _ => True) p

/-- The runs of `p`. -/
abbrev Runs {α : Type} (p : Task α) (done : Calls) (r : Except Error α) : Prop :=
  Prog.Whole (S := cmds) (α := Except Error α) p done r

section
variable {α β : Type}

theorem SilentTask.ret (r : Except Error α) : SilentTask (α := α) (Prog.ret r : Prog cmds (Except Error α)) := trivial

theorem silent_call {c : Cmd} (h : ¬ c.Announces) : SilentTask c.call := uses_call h

theorem silent_ebind {p : Task α} {f : α → Task β} (hp : SilentTask p) (hf : ∀ a, SilentTask (f a)) :
    SilentTask (p >>= f) := Prog.uses_ebind hp (fun a _ => hf a) fun _ _ => trivial

theorem Runs.silent {p : Task α} {done : Calls} {r : Except Error α} (hp : SilentTask p) (h : Runs p done r) :
    Silent done := (whole_of_uses hp h).1

theorem runs_call {c : Cmd} {done : Calls} {r : Except Error c.Value} (h : Runs c.call done r) : done = [⟨c, r⟩] := by
  obtain ⟨_, _, rfl, rfl, rfl⟩ := h
  rfl

theorem Silent.append {done rest : Calls} (h : Silent done) (h' : Silent rest) : Silent (done ++ rest) := fun c hc =>
  (List.mem_append.1 hc).elim (h c) (h' c)

end

/-! ## Announcing -/

/-- An announcement that comes after the calls `lead` and the questions `asked`, if there is one. -/
def Announced (Lead : Calls → Prop) (Asked : List Str → Calls → Prop) (done : Calls) : Prop :=
  Silent done ∨ ∃ lead asked args r, done = lead ++ asked ++ [⟨.ask (.execSystemdNotify args), r⟩] ∧
    Silent (lead ++ asked) ∧ Lead lead ∧ Asked args asked

section
variable {α : Type} {Lead : Calls → Prop} {Asked : List Str → Calls → Prop} {done : Calls} {r : Except Error Unit}

theorem announced_silent {p : Task Unit} (hp : SilentTask p) (h : Runs p done r) : Announced Lead Asked done :=
  Or.inl (Runs.silent hp h)

theorem announced_notify {args : List Str} (hlead : Lead []) (hasked : Asked args [])
    (h : Runs (ask (.execSystemdNotify args)) done r) : Announced Lead Asked done :=
  Or.inr ⟨[], [], args, r, runs_call h, nofun, hlead, hasked⟩

theorem Announced.mono {Lead' : Calls → Prop} (h : Announced Lead Asked done)
    (hlead : ∀ lead, Lead lead → Lead' lead) : Announced Lead' Asked done :=
  h.imp_right fun ⟨lead, asked, args, r, hdone, hs, hl, ha⟩ => ⟨lead, asked, args, r, hdone, hs, hlead lead hl, ha⟩

theorem announced_seq {p : Task α} {f : α → Task Unit} (hp : SilentTask p)
    (hf : ∀ first a, Runs p first (.ok a) → ∀ rest, Runs (f a) rest r → Announced Lead Asked (first ++ rest))
    (h : Runs (p >>= f) done r) : Announced Lead Asked done := by
  rcases whole_ebind h with ⟨e, herr, _⟩ | ⟨first, a, rest, rfl, hfirst, hrest⟩
  · exact Or.inl (Runs.silent hp herr)
  · exact hf first a hfirst rest hrest

/-- Silent calls before an announcement, counted to one of its two parts by `hsplit`. -/
theorem Announced.after {Lead' : Calls → Prop} {Asked' : List Str → Calls → Prop} {first rest : Calls}
    (h : Announced Lead' Asked' rest) (hfirst : Silent first)
    (hsplit : ∀ lead asked args, Lead' lead → Asked' args asked →
      ∃ lead' asked', first ++ (lead ++ asked) = lead' ++ asked' ∧ Lead lead' ∧ Asked args asked') :
    Announced Lead Asked (first ++ rest) := by
  rcases h with hrest | ⟨lead, asked, args, r', rfl, hs, hlead, hasked⟩
  · exact Or.inl (hfirst.append hrest)
  · obtain ⟨lead', asked', heq, hlead', hasked'⟩ := hsplit lead asked args hlead hasked
    refine Or.inr ⟨lead', asked', args, r', ?_, heq ▸ hfirst.append hs, hlead', hasked'⟩
    rw [← heq, List.append_assoc first]

/-- A silent part leads to an announcement in what follows it. -/
theorem announced_ebind {p : Task α} {f : α → Task Unit} (hp : SilentTask p)
    (hf : ∀ first a, Runs p first (.ok a) → ∀ rest, Runs (f a) rest r →
      Announced (fun lead => Lead (first ++ lead)) Asked rest)
    (h : Runs (p >>= f) done r) : Announced Lead Asked done := by
  refine announced_seq hp (fun first a hfirst rest hrest => ?_) h
  refine (hf first a hfirst rest hrest).after (Runs.silent hp hfirst) fun lead asked args hlead hasked => ?_
  exact ⟨first ++ lead, asked, (List.append_assoc _ _ _).symm, hlead, hasked⟩

/-- The same where the part belongs to the questions. -/
theorem announced_asking {p : Task α} {f : α → Task Unit} (hp : SilentTask p)
    (hf : ∀ first a, Runs p first (.ok a) → ∀ rest, Runs (f a) rest r →
      Announced (· = []) (fun args asked => Asked args (first ++ asked)) rest)
    (h : Runs (p >>= f) done r) : Announced (· = []) Asked done := by
  refine announced_seq hp (fun first a hfirst rest hrest => ?_) h
  refine (hf first a hfirst rest hrest).after (Runs.silent hp hfirst) fun lead asked args hlead hasked => ?_
  subst hlead
  exact ⟨[], first ++ asked, rfl, rfl, hasked⟩

end

/-- The questions that justify an announcement: a compositor unit is still activating, or the access of the unit to
look at is wide. -/
def Justified (LooksAt : List Str → Str → Prop) (args : List Str) (asked : Calls) : Prop :=
  (args = ["READY=1".toList, "NOTIFYACCESS=exec".toList] ∧ ∃ unit units,
    asked = [⟨.ask (.unitsByPatterns ["activating".toList] wmPattern), .ok (unit :: units)⟩]) ∨
  (args = ["NOTIFYACCESS=exec".toList] ∧ ∃ units unit, LooksAt units unit ∧
    asked = [⟨.ask (.unitsByPatterns ["activating".toList] wmPattern), .ok []⟩,
      ⟨.ask (.unitsByPatterns ["active".toList, "activating".toList] wmPattern), .ok units⟩,
      ⟨.ask (.notifyAccess unit), .ok "all".toList⟩])

/-- A look at a unit that finds wide access. -/
def FindsWide (LooksAt : List Str → Str → Prop) (narrow : List Str → Task Bool) : Prop :=
  ∀ units done, Runs (narrow units) done (.ok true) →
    ∃ unit, LooksAt units unit ∧ done = [⟨.ask (.notifyAccess unit), .ok "all".toList⟩]

theorem announced_notifyReady {LooksAt : List Str → Str → Prop} {narrow : List Str → Task Bool}
    (hsilent : ∀ units, SilentTask (narrow units)) (hwide : FindsWide LooksAt narrow) {done : Calls}
    {r : Except Error Unit} (h : Runs (notifyReady narrow) done r) : Announced (· = []) (Justified LooksAt) done := by
  refine announced_asking (silent_call id) (fun first activating hfirst rest hrest => ?_) h
  obtain rfl := runs_call hfirst
  split at hrest
  · rename_i hne
    obtain ⟨unit, units, rfl⟩ := List.exists_cons_of_ne_nil (by simpa using hne)
    exact announced_notify rfl (Or.inl ⟨rfl, unit, units, rfl⟩) hrest
  · rename_i hnil
    obtain rfl : activating = [] := by simpa using hnil
    refine announced_asking (silent_call id) (fun second units hsecond rest hrest => ?_) hrest
    obtain rfl := runs_call hsecond
    refine announced_asking (hsilent units) (fun third wide hthird rest hrest => ?_) hrest
    split at hrest
    · rename_i hw
      obtain rfl : wide = true := hw
      obtain ⟨unit, hlooks, rfl⟩ := hwide units third hthird
      exact announced_notify rfl (Or.inr ⟨rfl, units, unit, hlooks, rfl⟩) hrest
    · exact announced_silent (SilentTask.ret (.ok ())) hrest

/-! ## The exporters -/

/-- Variables recorded and then set. -/
def exporting (vars : Env) : Calls := [⟨.appendCleanup vars.keys, .ok ()⟩, ⟨.setSystemdVars vars, .ok ()⟩]

/-- The names the watcher waits for. -/
def expectedNames (waitVarnames : Str) : Names :=
  ExtTreeSet.ofList (("WAYLAND_DISPLAY".toList :: splitWhitespace waitVarnames).filter keepName)

/-- Looks at the environment, the last of which finds all of `expected`. -/
def Waited (expected : Names) (polls : Nat) (done : Calls) : Prop :=
  ∃ (early : List Env) (present : Env),
    done = early.map (fun env => ⟨.systemdVars, .ok env⟩) ++ [⟨.systemdVars, .ok present⟩] ∧
    early.length ≤ polls ∧ (∀ env ∈ early, ∃ k ∈ expected, k ∉ env) ∧ ∀ k ∈ expected, k ∈ present

theorem waylandDisplay_expected (waitVarnames : Str) : "WAYLAND_DISPLAY".toList ∈ expectedNames waitVarnames := by
  have hkeep : keepName "WAYLAND_DISPLAY".toList = true := by decide
  rw [expectedNames, ExtTreeSet.mem_ofList, List.contains_eq_mem, decide_eq_true_eq]
  exact List.mem_filter.2 ⟨List.mem_cons_self, hkeep⟩

/-- The unit that a watcher watches. -/
def ownUnit (idUnitString : Str) : Str := "wayland-wm@".toList ++ idUnitString ++ ".service".toList

/-- What an exporter has done before it asks whether to announce. -/
def Exporter.Done : Exporter → Calls → Prop
  | .finalize env extraVars, done => (env["WAYLAND_DISPLAY".toList]?).getD [] ≠ [] ∧
      done = exporting (exportOf env (["WAYLAND_DISPLAY".toList, "DISPLAY".toList] ++ extraVars))
  | .readinessWatch idUnitString waitVarnames polls, done =>
    ∃ (envPre : Env) (timeout : Except Error Nat) (waited : Calls) (envPost : Env),
      Waited (expectedNames waitVarnames) (polls timeout.toOption) waited ∧
      done = [⟨.systemdVars, .ok envPre⟩, ⟨.ask (.timeoutStart (ownUnit idUnitString)), timeout⟩] ++ waited ++
        ⟨.systemdVars, .ok envPost⟩ ::
        if (newBindings envPre envPost).isEmpty then [] else exporting (newBindings envPre envPost)

/-- The unit whose access an exporter looks at when `units` are up. -/
def Exporter.LooksAt : Exporter → List Str → Str → Prop
  | .finalize _ _, units, unit => units.head? = some unit
  | .readinessWatch idUnitString _ _, units, unit => units ≠ [] ∧ unit = ownUnit idUnitString

theorem silent_finalizeNarrows (units : List Str) : SilentTask (finalizeNarrows units) :=
  uses_finalizeNarrows (fun _ => id) (fun _ => trivial) units

theorem findsWide_finalizeNarrows (env : Env) (extraVars : List Str) :
    FindsWide (Exporter.finalize env extraVars).LooksAt finalizeNarrows := by
  intro units done h
  cases units with
  | nil => exact absurd h.2 (by simp)
  | cons unit units =>
    rcases whole_ebind h with ⟨e, _, he⟩ | ⟨first, access, rest, rfl, hfirst, hrest⟩
    · exact nomatch he
    obtain rfl := runs_call hfirst
    obtain ⟨rfl, hwide⟩ := hrest
    have haccess : access = "all".toList := by simpa using (Except.ok.inj hwide).symm
    exact ⟨unit, rfl, by rw [haccess]; rfl⟩

theorem silent_watcherNarrows (unit : Str) (units : List Str) : SilentTask (watcherNarrows unit units) :=
  uses_watcherNarrows (fun _ => id) (fun _ => trivial) unit units

theorem findsWide_watcherNarrows (idUnitString waitVarnames : Str) (polls : Option Nat → Nat) :
    FindsWide (Exporter.readinessWatch idUnitString waitVarnames polls).LooksAt
      (watcherNarrows ("wayland-wm@".toList ++ idUnitString ++ ".service".toList)) := by
  intro units done h
  unfold watcherNarrows at h
  split at h
  · exact absurd h.2 (by simp)
  · rename_i hunits
    obtain ⟨first, r, rest, rfl, hfirst, hrest⟩ := whole_bind h
    obtain rfl := runs_call hfirst
    cases r with
    | error e => exact absurd hrest.2 (by simp)
    | ok access =>
      obtain ⟨rfl, hwide⟩ := hrest
      have haccess : access = "all".toList := by simpa using (Except.ok.inj hwide).symm
      exact ⟨_, ⟨by simpa using hunits, rfl⟩, by rw [haccess]; rfl⟩

theorem silent_startTimeout (unit : Str) : SilentTask (startTimeout unit) :=
  Prog.uses_bind (silent_call id) fun _ _ => trivial

theorem runs_startTimeout {unit : Str} {done : Calls} {timeout : Option Nat}
    (h : Runs (startTimeout unit) done (.ok timeout)) :
    ∃ answer : Except Error Nat, done = [⟨.ask (.timeoutStart unit), answer⟩] ∧ timeout = answer.toOption := by
  obtain ⟨first, answer, rest, rfl, hfirst, rfl, hanswer⟩ := whole_bind h
  exact ⟨answer, by rw [runs_call hfirst, List.append_nil], Except.ok.inj hanswer⟩

theorem silent_waitenv (expected : Names) (polls : Nat) : SilentTask (waitenv expected polls) :=
  uses_waitenv id (fun _ => trivial) expected polls

theorem runs_pollOnce {expected : Names} {retry : List Str → Task Unit} {done : Calls}
    (h : Runs (pollOnce expected retry) done (.ok ())) : ∃ present rest, done = ⟨.systemdVars, .ok present⟩ :: rest ∧
      ((∀ k ∈ expected, k ∈ present) ∧ rest = [] ∨
        (∃ k ∈ expected, k ∉ present) ∧ ∃ missing, Runs (retry missing) rest (.ok ())) := by
  rcases whole_ebind h with ⟨e, _, he⟩ | ⟨first, present, rest, rfl, hfirst, hrest⟩
  · exact nomatch he
  obtain rfl := runs_call hfirst
  refine ⟨present, rest, rfl, ?_⟩
  split at hrest
  · rename_i hall
    refine Or.inl ⟨fun k hk => ?_, hrest.1⟩
    exact ExtTreeMap.contains_iff_mem.1 (List.all_eq_true.1 hall k (ExtTreeSet.mem_toList.2 hk))
  · rename_i hall
    refine Or.inr ⟨?_, _, hrest⟩
    simpa using hall

theorem runs_waitenv {expected : Names} : ∀ {polls : Nat} {done : Calls}, Runs (waitenv expected polls) done (.ok ()) →
    Waited expected polls done
  | 0, done, h => by
    obtain ⟨present, rest, rfl, ⟨hall, rfl⟩ | ⟨_, missing, hrest⟩⟩ := runs_pollOnce h
    · exact ⟨[], present, rfl, le_rfl, nofun, hall⟩
    · exact nomatch hrest.2
  | polls + 1, done, h => by
    obtain ⟨present, rest, rfl, ⟨hall, rfl⟩ | ⟨hmiss, missing, hrest⟩⟩ := runs_pollOnce h
    · exact ⟨[], present, rfl, Nat.zero_le _, nofun, hall⟩
    · obtain ⟨early, last, rfl, hlen, hearly, hall⟩ := runs_waitenv hrest
      exact ⟨present :: early, last, rfl, Nat.succ_le_succ hlen, List.forall_mem_cons.2 ⟨hmiss, hearly⟩, hall⟩

theorem silent_syncDelta (delta : Env) : SilentTask (syncDelta delta) := by
  unfold syncDelta
  split
  · trivial
  · exact silent_ebind (silent_call id) fun _ => silent_call id

theorem runs_syncDelta {delta : Env} {done : Calls} (h : Runs (syncDelta delta) done (.ok ())) :
    done = if delta.isEmpty then [] else exporting delta := by
  unfold syncDelta at h
  split
  · rename_i hempty
    rw [if_pos hempty] at h
    exact h.1
  · rename_i hempty
    rw [if_neg hempty] at h
    rcases whole_ebind h with ⟨e, _, he⟩ | ⟨first, a, rest, rfl, hfirst, hrest⟩
    · exact nomatch he
    obtain rfl := runs_call hfirst
    obtain rfl := runs_call hrest
    rfl

theorem announced_finalize (env : Env) (extraVars : List Str) {done : Calls} {r : Except Error Unit}
    (h : Runs (finalize env extraVars) done r) : Announced (Exporter.finalize env extraVars).Done
      (Justified (Exporter.finalize env extraVars).LooksAt) done := by
  unfold finalize at h
  split at h
  · exact announced_silent (SilentTask.ret (.error _)) h
  · rename_i hset
    refine announced_ebind (silent_call id) (fun first a hfirst rest hrest => ?_) h
    obtain rfl := runs_call hfirst
    refine announced_ebind (silent_call id) (fun second b hsecond rest hrest => ?_) hrest
    obtain rfl := runs_call hsecond
    exact (announced_notifyReady silent_finalizeNarrows (findsWide_finalizeNarrows env extraVars) hrest).mono
      fun lead hlead => ⟨hset, by rw [hlead]; rfl⟩

theorem announced_readinessWatch (idUnitString waitVarnames : Str) (polls : Option Nat → Nat) {done : Calls}
    {r : Except Error Unit} (h : Runs (readinessWatch idUnitString waitVarnames polls) done r) :
    Announced (Exporter.readinessWatch idUnitString waitVarnames polls).Done
      (Justified (Exporter.readinessWatch idUnitString waitVarnames polls).LooksAt) done := by
  refine announced_ebind (silent_call id) (fun first envPre hfirst rest hrest => ?_) h
  obtain rfl := runs_call hfirst
  refine announced_ebind (silent_startTimeout _) (fun asked timeout hasked rest hrest => ?_) hrest
  obtain ⟨answer, rfl, rfl⟩ := runs_startTimeout hasked
  refine announced_ebind (silent_waitenv _ _) (fun waited _ hwaited rest hrest => ?_) hrest
  refine announced_ebind (silent_call id) (fun last envPost hlast rest hrest => ?_) hrest
  obtain rfl := runs_call hlast
  refine announced_ebind (silent_syncDelta _) (fun synced _ hsynced rest hrest => ?_) hrest
  obtain rfl := runs_syncDelta hsynced
  refine (announced_notifyReady (silent_watcherNarrows _)
    (findsWide_watcherNarrows idUnitString waitVarnames polls) hrest).mono fun lead hlead => ?_
  refine ⟨envPre, answer, waited, envPost, runs_waitenv hwaited, ?_⟩
  rw [hlead]
  simp only [List.append_nil, List.cons_append, List.nil_append]
  rfl

theorem announced_exporter : ∀ (x : Exporter) {done : Calls} {r : Except Error Unit}, Runs x.task done r →
    Announced x.Done (Justified x.LooksAt) done
  | .finalize env extraVars, _, _, h => announced_finalize env extraVars h
  | .readinessWatch idUnitString waitVarnames polls, _, _, h =>
    announced_readinessWatch idUnitString waitVarnames polls h

/-! ## The main result -/

/-- What holds of the calls of every run of `x`. -/
def Exporter.ReadinessLast (x : Exporter) (done : Calls) : Prop :=
  ∀ before args r after, done = before ++ ⟨.ask (.execSystemdNotify args), r⟩ :: after →
    after = [] ∧ ∃ lead asked, before = lead ++ asked ∧ x.Done lead ∧ Justified x.LooksAt args asked

theorem Announced.last {x : Exporter} {done : Calls} (h : Announced x.Done (Justified x.LooksAt) done) :
    x.ReadinessLast done := by
  rintro before args r after hdone
  rcases h with hsilent | ⟨lead, asked, args', r', hdone', hsilent, hlead, hasked⟩
  · exact absurd trivial (hsilent ⟨.ask (.execSystemdNotify args), r⟩ (by rw [hdone]; simp))
  rw [hdone'] at hdone
  rcases List.eq_nil_or_concat after with rfl | ⟨after, last, rfl⟩
  · obtain ⟨rfl, hlast⟩ := List.append_inj' hdone rfl
    simp only [List.cons.injEq, Sigma.mk.injEq, Cmd.ask.injEq, Query.execSystemdNotify.injEq] at hlast
    obtain ⟨⟨rfl, _⟩, _⟩ := hlast
    exact ⟨rfl, lead, asked, rfl, hlead, hasked⟩
  · -- A second announcement would stand among the silent calls.
    rw [List.concat_eq_append, ← List.cons_append, ← List.append_assoc] at hdone
    obtain ⟨hbefore, _⟩ := List.append_inj' hdone rfl
    exact absurd trivial (hsilent ⟨.ask (.execSystemdNotify args), r⟩ (by rw [hbefore]; simp))

/-- **Readiness is announced last**, however the calls are answered. -/
theorem readiness_last (x : Exporter) (fs : List ((c : Cmd) → Except Error c.Value)) :
    x.ReadinessLast (Prog.calls (S := cmds) (α := Except Error Unit) x.task fs) := by
  obtain ⟨r, hruns⟩ := whole_calls (S := cmds) (α := Except Error Unit) x.task fs
  exact (announced_exporter x hruns).last

/-- The watcher announces nothing before `WAYLAND_DISPLAY` is in the activation environment. -/
theorem display_before_announcement (idUnitString waitVarnames : Str) (polls : Option Nat → Nat)
    {before after : Calls} {args : List Str} {q r : Except Error Unit}
    (h : Runs (readinessWatch idUnitString waitVarnames polls)
      (before ++ ⟨.ask (.execSystemdNotify args), q⟩ :: after) r) :
    ∃ present : Env, (⟨.systemdVars, .ok present⟩ : Prog.Call cmds) ∈ before ∧ "WAYLAND_DISPLAY".toList ∈ present := by
  obtain ⟨_, lead, asked, rfl, hlead, _⟩ :=
    (announced_exporter (.readinessWatch idUnitString waitVarnames polls) h).last before args q after rfl
  obtain ⟨envPre, timeout, waited, envPost, ⟨early, present, rfl, _, _, hall⟩, rfl⟩ := hlead
  exact ⟨present, by simp, hall _ (waylandDisplay_expected waitVarnames)⟩

end Wsmr
