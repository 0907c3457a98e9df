import Wsmr.Sysd.Dbus

/-!
# What the errors of an update tell (`src/sysd/dbus.rs`)

An update has two sides. Its errors tell which of them has the change (`Told`), but for one: the query for
`dbus-broker` comes after systemd has been set, and its failure does not tell (`set_told_iff`).
-/

namespace Wsmr

open Text Std Effects Prog

/-- Calls that fail without an effect. -/
def faultsOf (fails : List Bool) : List Fault := fails.map fun b => ⟨b, fun _ => false⟩

/-- An update of both environments. -/
structure Update where
  systemd : ActEnv → ActEnv
  dbus : Env → Env

/-- `set_systemd_vars` -/
def setUpdate (vars : Env) : Update :=
  ⟨fun e => e.merge (ofAssignments (assignments vars)), fun e => e.insertMany vars.toList⟩

/-- `unset_systemd_vars`; in the environment of the D-Bus daemon, names are set to nothing. -/
def unsetUpdate (names : List Str) : Update :=
  ⟨fun e => e.erase names, fun e => e.insertMany (ExtTreeMap.ofList (names.map fun n => (n, ([] : Str))) : Env).toList⟩

/-- The outcome of an update tells what was applied. -/
def Told (u : Update) (w : World) (outcome : Except Error Unit × World) : Prop :=
  match outcome.1 with
  | .ok () => outcome.2.systemd = u.systemd w.systemd ∧ (w.broker = false → outcome.2.dbus = u.dbus w.dbus)
  | .error (.partialEnvUpdate _ applied failed) =>
    applied = "systemd".toList ∧ failed = "the D-Bus daemon".toList ∧
        outcome.2.systemd = u.systemd w.systemd ∧ outcome.2.dbus = w.dbus ∨
      applied = "the D-Bus daemon".toList ∧ failed = "systemd".toList ∧
        outcome.2.dbus = u.dbus w.dbus ∧ outcome.2.systemd = w.systemd
  | .error _ => outcome.2.systemd = w.systemd ∧ outcome.2.dbus = w.dbus

/-- Every call may fail. -/
def update (p : Io Unit) (fails : List Bool) (w : World) : Except Error Unit × World :=
  runIo (fun _ => true) p (faultsOf fails) w

theorem ActEnv.ext_apply {e e' : ActEnv} (h : ∀ k, e k = e' k) : e = e' := by
  obtain ⟨vars, _⟩ := e
  obtain ⟨vars', _⟩ := e'
  obtain rfl : vars = vars' := ExtTreeMap.ext_getElem? h
  rfl

/-- A call that has dealt with no name has had no effect. -/
theorem effectUpTo_none (o : Prim) (w : World) : o.effectUpTo (fun _ => false) w = w := by
  cases o with
  | sweepVars =>
    have hdisk : w.disk.sweep (fun _ => false) = w.disk := by
      funext f
      cases f <;> rfl
    simp only [Prim.effectUpTo, hdisk]
  | setEnvironment as =>
    have hmerge : w.systemd.merge ((ofAssignments as).filter fun _ _ => false) = w.systemd := by
      refine ActEnv.ext_apply fun k => ?_
      rw [ActEnv.merge_apply] <;> simp
    simp only [Prim.effectUpTo, hmerge, ite_self]
  | unsetEnvironment names =>
    have herase : w.systemd.erase (names.filter fun _ => false) = w.systemd := by
      refine ActEnv.ext_apply fun k => ?_
      rw [ActEnv.erase_apply]
      simp
    simp only [Prim.effectUpTo, herase]
  | _ => rfl

/-- One call, and what comes after it. -/
theorem handle_faultsOf (fails : List Bool) (o : Prim) (w : World) : handle (fun _ => true) (faultsOf fails).headI o w =
    if o.refused || (o.fallible && fails.headI) then (.error (), w) else (.ok (o.value w), o.effect w) := by
  cases fails with
  | nil =>
    have hup : o.refused = true → o.effectUpTo (default : Fault).reaches w = w := by
      intro h
      cases o with
      | setEnvironment as => exact if_pos h
      | _ => cases h
    unfold handle
    show (if o.refused || (true && o.fallible && false) then _ else _) =
      if o.refused || (o.fallible && false) then _ else _
    simp only [Bool.and_false, Bool.or_false]
    split
    · rename_i h
      rw [show (faultsOf []).headI = default from rfl, hup h]
    · rfl
  | cons b fails =>
    unfold handle
    rw [show (faultsOf (b :: fails)).headI = ⟨b, fun _ => false⟩ from rfl, effectUpTo_none]
    simp

theorem update_bind (o : Prim) (e : Error) (k : o.Value → Io Unit) (fails : List Bool) (w : World) :
    update (orFail e (perform o) >>= k) fails w =
      if o.refused || (o.fallible && fails.headI) then (.error e, w)
      else update (k (o.value w)) fails.tail (o.effect w) := by
  have htail : (faultsOf fails).tail = faultsOf fails.tail := List.map_tail.symm
  have hrun : update (orFail e (perform o) >>= k) fails w =
      match handle (fun _ => true) (faultsOf fails).headI o w with
      | (.ok a, t) => runIo (fun _ => true) (k a) (faultsOf fails).tail t
      | (.error _, t) => (.error e, t) := by
    rw [ebind_eq]
    unfold update runIo orFail perform
    simp only [Prog.bind, Prog.run]
    cases handle (fun _ => true) (faultsOf fails).headI o w with
    | mk r t => cases r <;> rfl
  rw [hrun, handle_faultsOf, htail]
  by_cases hfail : (o.refused || (o.fallible && fails.headI)) = true
  · simp only [if_pos hfail]
  · simp only [if_neg hfail]
    rfl

/-! ## The two functions -/

section
variable (vars : Env) (names : List Str) (fails : List Bool) (w : World)

/-- **Setting**, call by call. -/
theorem update_set : update (setSystemdVars vars) fails w =
    if Prim.refused (.setEnvironment (assignments vars)) || fails.headI then (.error .dbus, w)
    else
      if fails.tail.headI then (.error .dbus, { w with systemd := (setUpdate vars).systemd w.systemd })
      else if w.broker then (.ok (), { w with systemd := (setUpdate vars).systemd w.systemd })
      else if fails.tail.tail.headI then
        (.error (.partialEnvUpdate "set".toList "systemd".toList "the D-Bus daemon".toList),
          { w with systemd := (setUpdate vars).systemd w.systemd })
      else (.ok (), { w with
        systemd := (setUpdate vars).systemd w.systemd, dbus := (setUpdate vars).dbus w.dbus }) := by
  have hlast : ∀ e fails t, update (orFail e (perform (.updateActivationEnvironment vars))) fails t =
      if fails.headI then (.error e, t) else (.ok (), { t with dbus := t.dbus.insertMany vars.toList }) := by
    intro e fails t
    have hbind := update_bind (.updateActivationEnvironment vars) e (fun a => pure a) fails t
    rwa [bind_pure] at hbind
  unfold setSystemdVars
  rw [update_bind]
  by_cases hset : (Prim.refused (.setEnvironment (assignments vars)) || fails.headI) = true
  · rw [if_pos hset, if_pos (by simpa [Prim.fallible] using hset)]
  · rw [if_neg hset, if_neg (by simpa [Prim.fallible] using hset), update_bind]
    cases hquery : fails.tail.headI with
    | true => rfl
    | false =>
      simp only [Prim.refused, Prim.fallible, Bool.and_false, Bool.or_self, Bool.false_eq_true, if_false]
      cases hbroker : w.broker with
      | true =>
        simp only [Prim.value, Prim.effect, hbroker, if_true]
        rfl
      | false =>
        simp only [Prim.value, Prim.effect, hbroker, Bool.false_eq_true, if_false, hlast]
        rfl

/-- **Unsetting**, call by call. -/
theorem update_unset : update (unsetSystemdVars names) fails w =
    if fails.headI then (.error .dbus, w)
    else if w.broker then
      if fails.tail.headI then (.error .dbus, w)
      else (.ok (), { w with systemd := (unsetUpdate names).systemd w.systemd })
    else if fails.tail.headI then (.error .dbus, w)
    else if fails.tail.tail.headI then
      (.error (.partialEnvUpdate "unset".toList "the D-Bus daemon".toList "systemd".toList),
        { w with dbus := (unsetUpdate names).dbus w.dbus })
    else (.ok (), { w with
      systemd := (unsetUpdate names).systemd w.systemd, dbus := (unsetUpdate names).dbus w.dbus }) := by
  have hlast : ∀ e fails t, update (orFail e (perform (.unsetEnvironment names))) fails t =
      if fails.headI then (.error e, t) else (.ok (), { t with systemd := t.systemd.erase names }) := by
    intro e fails t
    have hbind := update_bind (.unsetEnvironment names) e (fun a => pure a) fails t
    rwa [bind_pure] at hbind
  unfold unsetSystemdVars
  rw [update_bind]
  cases hquery : fails.headI with
  | true => rfl
  | false =>
    simp only [Prim.refused, Prim.fallible, Bool.and_false, Bool.or_self, Bool.false_eq_true, if_false]
    cases hbroker : w.broker with
    | true =>
      simp only [Prim.value, Prim.effect, hbroker, if_true, hlast]
      rfl
    | false =>
      simp only [Prim.value, Prim.effect, hbroker, Bool.false_eq_true, if_false]
      rw [update_bind]
      cases hclear : fails.tail.headI with
      | true => rfl
      | false =>
        simp only [Prim.refused, Prim.fallible, Bool.and_false, Bool.or_self, Bool.false_eq_true, if_false, hlast,
          Prim.effect, hbroker]
        rfl

end

/-! ## What is told -/

/-- `SetEnvironment` goes through, and the query after it does not. -/
def QueryFailsAfterSet (vars : Env) (fails : List Bool) : Prop :=
  Prim.refused (.setEnvironment (assignments vars)) = false ∧ fails.headI = false ∧ fails.tail.headI = true

theorem set_told_iff (vars : Env) (fails : List Bool) (w : World) :
    Told (setUpdate vars) w (update (setSystemdVars vars) fails w) ↔
      ¬ (QueryFailsAfterSet vars fails ∧ (setUpdate vars).systemd w.systemd ≠ w.systemd) := by
  rw [update_set]
  unfold QueryFailsAfterSet
  cases hrefused : Prim.refused (.setEnvironment (assignments vars)) with
  | true => simp [Told]
  | false =>
    cases hset : fails.headI with
    | true => simp [Told]
    | false =>
      cases hquery : fails.tail.headI with
      | true => simp [Told]
      | false =>
        cases hbroker : w.broker with
        | true => simp [Told, hbroker]
        | false => cases hdbus : fails.tail.tail.headI <;> simp [Told]

theorem unset_told (names : List Str) (fails : List Bool) (w : World) :
    Told (unsetUpdate names) w (update (unsetSystemdVars names) fails w) := by
  rw [update_unset]
  cases hquery : fails.headI with
  | true => simp [Told]
  | false =>
    cases hbroker : w.broker with
    | true => cases hunset : fails.tail.headI <;> simp [Told, hbroker]
    | false =>
      cases hclear : fails.tail.headI with
      | true => simp [Told]
      | false => cases hunset : fails.tail.tail.headI <;> simp [Told]

/-- **Errors of updates tell what was applied**, unless the query fails after systemd has been changed. -/
theorem updates_told_iff (vars : Env) (names : List Str) (fails : List Bool) (w : World) :
    (Told (setUpdate vars) w (update (setSystemdVars vars) fails w) ↔
      ¬ (QueryFailsAfterSet vars fails ∧ (setUpdate vars).systemd w.systemd ≠ w.systemd)) ∧
    Told (unsetUpdate names) w (update (unsetSystemdVars names) fails w) :=
  ⟨set_told_iff vars fails w, unset_told names fails w⟩

def oneVar : Env := ExtTreeMap.ofList [("A".toList, "1".toList)]

/-- A D-Bus error, and systemd has the variable. -/
theorem query_failure_untold :
    ¬ Told (setUpdate oneVar) (World.bare []) (update (setSystemdVars oneVar) [false, true] (World.bare [])) := by
  have hset : (setUpdate oneVar).systemd (World.bare []).systemd "A".toList = some "1".toList := by decide +kernel
  have hnone : (World.bare []).systemd "A".toList = none := by decide
  have hrefused : Prim.refused (.setEnvironment (assignments oneVar)) = false := by decide
  rw [set_told_iff, not_not]
  refine ⟨⟨hrefused, rfl, rfl⟩, fun hsame => ?_⟩
  rw [hsame, hnone] at hset
  cases hset

end Wsmr
