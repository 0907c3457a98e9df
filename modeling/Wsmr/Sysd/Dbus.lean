import Wsmr.Sysd.World

/-!
# Updating the activation environments (`src/sysd/dbus.rs`)

Each function of the session bus is a program over `Prim`. Its specification says what it does to
the world at any point of its run (`Wrote`, `Erased`) and, when it returns `Ok`, at the end.
-/

namespace Wsmr

open Text Std Effects Prog

/-- A program of the original: `Result<α>`, with `?` as `←`. -/
abbrev Io (α : Type) := ExceptT Error (Prog prims) α

def perform (o : Prim) : Prog prims (Answer o.Value) := .op o .ret

/-- Report a failed call as `e`. -/
def orFail {α : Type} (e : Error) (p : Prog prims (Answer α)) : Io α :=
  p.bind fun r => .ret (match r with
    | .ok a => .ok a
    | .error _ => .error e)

def parseAssignment (a : Str) : Option (Str × Str) :=
  match splitOnce '=' a with
  | some (k, v) => if keepName k then some (k, v) else none
  | none => none

/-- The systemd activation environment, filtered to valid names. -/
def systemdVars : Io Env := do
  let environment ← orFail .dbus (perform .environment)
  return (environment.filterMap parseAssignment).foldl (fun map p => map.insert p.1 p.2) ∅

/-- systemd first, D-Bus second. -/
def setSystemdVars (vars : Env) : Io Unit := do
  orFail .dbus (perform (.setEnvironment (assignments vars)))
  let broker ← orFail .dbus (perform .isDbusBroker)
  if broker then return ()
  else
    orFail (.partialEnvUpdate "set".toList "systemd".toList "the D-Bus daemon".toList)
      (perform (.updateActivationEnvironment vars))

/-- D-Bus first, systemd second. -/
def unsetSystemdVars (names : List Str) : Io Unit := do
  let broker ← orFail .dbus (perform .isDbusBroker)
  if broker then orFail .dbus (perform (.unsetEnvironment names))
  else do
    orFail .dbus (perform (.updateActivationEnvironment (ExtTreeMap.ofList (names.map fun n => (n, [])))))
    orFail (.partialEnvUpdate "unset".toList "the D-Bus daemon".toList "systemd".toList)
      (perform (.unsetEnvironment names))

/-- The result and the world a program ends with, under a list of faults. -/
def runIo {α : Type} (may : Prim → Bool) (p : Io α) (fs : List Fault) (w : World) : Except Error α × World :=
  let r := Prog.run (handle may) p fs w
  (r.1, r.2.2)

/-- The world a program leaves behind that is killed after `n` calls. -/
def stopIo {α : Type} (may : Prim → Bool) (n : Nat) (p : Io α) (fs : List Fault) (w : World) : World :=
  Prog.stop (handle may) n p fs w

/-! ## One call -/

section
variable {may : Prim → Bool} {w : World} {C : World → Prop}

theorem runIo_spec (may : Prim → Bool) {α : Type} {p : Io α} {Q : Except Error α → World → Prop} (fs : List Fault)
    (h : Prog.wpc (S := prims) (handle may) C Q p w) :
    C (runIo may p fs w).2 ∧ Q (runIo may p fs w).1 (runIo may p fs w).2 := run_of_wpc fs h

theorem stopIo_spec (may : Prim → Bool) {α : Type} {p : Io α} {Q : Except Error α → World → Prop} (n : Nat)
    (fs : List Fault)
    (h : Prog.wpc (S := prims) (handle may) C Q p w) : C (stopIo may n p fs w) := stop_of_wpc n fs h

theorem wpc_perform (o : Prim) {Q : Answer o.Value → World → Prop} (hc : C w)
    (hok : o.refused = false → C (o.effect w) ∧ Q (.ok (o.value w)) (o.effect w))
    (herr : ∀ p, o.refused = true ∨ (may o = true ∧ o.fallible = true) →
      C (o.effectUpTo p w) ∧ Q (.error ()) (o.effectUpTo p w)) :
    (perform o).wpc (handle may) C Q w := by
  refine ⟨hc, fun f => ?_⟩
  show (handle may f o w).2 |> fun t => C t ∧ Q (handle may f o w).1 t
  unfold handle
  split
  · rename_i h
    simp only [Bool.or_eq_true, Bool.and_eq_true] at h
    exact herr f.reaches (h.imp_right fun h => h.1)
  · rename_i h
    simp only [Bool.or_eq_true, not_or, Bool.not_eq_true] at h
    exact hok h.1

theorem wpc_orFail (o : Prim) {e : Error} {Q : Except Error o.Value → World → Prop} (hc : C w)
    (hok : o.refused = false → C (o.effect w) ∧ Q (.ok (o.value w)) (o.effect w))
    (herr : ∀ p, o.refused = true ∨ (may o = true ∧ o.fallible = true) →
      C (o.effectUpTo p w) ∧ Q (.error e) (o.effectUpTo p w)) :
    (orFail e (perform o)).wpc (handle may) C Q w :=
  wpc_bind (wpc_perform o hc (fun h => ⟨(hok h).1, hok h⟩) fun p h => ⟨(herr p h).1, herr p h⟩)

/-- A call that only looks at the world, and does not fail. -/
theorem wpc_look (o : Prim) {e : Error} {Q : Except Error o.Value → World → Prop} (hc : C w)
    (hu : o.effect w = w ∧ ∀ p, o.effectUpTo p w = w) (hok : Q (.ok (o.value w)) w)
    (herr : Q (.error e) w) : (orFail e (perform o)).wpc (handle may) C Q w :=
  wpc_orFail o hc (fun _ => by rw [hu.1]; exact ⟨hc, hok⟩) fun p _ => by rw [hu.2]; exact ⟨hc, herr⟩

end

/-! ## Specifications -/

section
variable {may : Prim → Bool} {w : World}

theorem parseAssignment_assignments {vars : Env} (h : ∀ k v : Str, vars[k]? = some v → '=' ∉ k) :
    (assignments vars).filterMap parseAssignment = vars.toList.filter fun p => keepName p.1 := by
  have hrec : ∀ p ∈ vars.toList, (parseAssignment ∘ assignment) p = if keepName p.1 then some p else none := by
    rintro ⟨k, v⟩ hp
    simp [parseAssignment, assignment,
      splitOnce_append v (h k v (ExtTreeMap.mem_toList_iff_getElem?_eq_some.1 hp))]
  rw [assignments, List.filterMap_map, List.filterMap_congr hrec, ← List.filterMap_eq_filter]
  rfl

theorem systemdVars_spec : systemdVars.wpc (handle may) (w = ·)
    (fun r _ => ∀ env, r = .ok env → env = w.systemd.vars.kept) w := by
  unfold systemdVars
  rw [ebind_eq]
  refine wpc_ebind (wpc_look .environment rfl ⟨rfl, fun _ => rfl⟩ ?_ nofun)
  refine ⟨rfl, fun env h => ?_⟩
  obtain rfl := Except.ok.inj h
  apply ExtTreeMap.ext_getElem?
  intro k
  show (List.foldl _ _ (List.filterMap _ (assignments w.systemd.vars)))[k]? = _
  rw [parseAssignment_assignments fun k v h => (w.systemd.wf k v h).1, ← ExtTreeMap.ofList_eq_foldl,
    TreeMap.getElem?_ofList_filter, getElem?_kept]

/-- At most the bindings of `vars` have been added. -/
structure Wrote (vars : Env) (w w' : World) : Prop where
  disk : w'.disk = w.disk
  systemd : ∀ k, w'.systemd k = w.systemd k ∨ (∃ v, vars[k]? = some v ∧ w'.systemd k = some v)

/-- At most the bindings of `names` are gone. -/
structure Erased (names : List Str) (w w' : World) : Prop where
  disk : w'.disk = w.disk
  systemd : ∀ k, w'.systemd k = w.systemd k ∨ (k ∈ names ∧ w'.systemd k = none)

/-- Every name is kept. -/
def KeptNames (vars : Env) : Prop := ∀ k v : Str, vars[k]? = some v → keepName k = true

theorem eq_not_mem_of_kept {vars : Env} (h : KeptNames vars) (k v : Str) (hk : vars[k]? = some v) : '=' ∉ k :=
  not_mem_of_keepName (h k v hk) (by decide)

theorem not_refused_iff {vars : Env} (h : KeptNames vars) :
    Prim.refused (.setEnvironment (assignments vars)) = false ↔ NulFree vars := by
  simp only [Prim.refused, Bool.not_eq_false', List.all_eq_true, assignments, List.forall_mem_map, Prod.forall,
    ExtTreeMap.mem_toList_iff_getElem?_eq_some, NulFree]
  refine forall₃_congr fun k v hk => ?_
  have := not_mem_of_keepName (h k v hk) (c := '\x00') (by decide)
  simp [validAssignment, assignment, this]

theorem merge_assignments {e : ActEnv} {vars : Env} (h : KeptNames vars) (hn : NulFree vars) (k : Str) :
    e.merge (ofAssignments (assignments vars)) k = vars[k]?.or (e k) := by
  rw [ofAssignments_assignments (eq_not_mem_of_kept h)]
  exact e.merge_apply fun v hv => ⟨eq_not_mem_of_kept h k v hv, hn k v hv⟩

theorem merge_filter {e : ActEnv} {vars : Env} (h : KeptNames vars) (hn : NulFree vars) (p : Str → Bool)
    (k : Str) : e.merge ((ofAssignments (assignments vars)).filter fun k _ => p k) k =
      (vars.filter fun k _ => p k)[k]?.or (e k) := by
  rw [ofAssignments_assignments (eq_not_mem_of_kept h)]
  refine e.merge_apply fun v hv => ?_
  rw [ExtTreeMap.getElem?_filter', Option.filter_eq_some_iff] at hv
  exact ⟨eq_not_mem_of_kept h k v hv.1, hn k v hv.1⟩

/-- Part of a set: each name as before, or with its new value. -/
theorem merge_filter_cases {e : ActEnv} {vars : Env} (h : KeptNames vars) (hn : NulFree vars)
    (p : Str → Bool) (k : Str) :
    e.merge ((ofAssignments (assignments vars)).filter fun k _ => p k) k = e k ∨
      ∃ v, vars[k]? = some v ∧ e.merge ((ofAssignments (assignments vars)).filter fun k _ => p k) k = some v := by
  rw [merge_filter h hn]
  cases hv : (vars.filter fun k _ => p k)[k]? with
  | none => exact Or.inl rfl
  | some v =>
    rw [ExtTreeMap.getElem?_filter', Option.filter_eq_some_iff] at hv
    exact Or.inr ⟨v, hv.1, rfl⟩

/-- **`set_systemd_vars`**. -/
theorem setSystemdVars_spec {vars : Env} (h : KeptNames vars) :
    (setSystemdVars vars).wpc (handle may) (Wrote vars w)
      (fun r w' => r = .ok () → ∀ k, w'.systemd k = vars[k]?.or (w.systemd k)) w := by
  unfold setSystemdVars
  simp only [ebind_eq]
  have hstart : Wrote vars w w := ⟨rfl, fun _ => Or.inl rfl⟩
  refine wpc_ebind (wpc_orFail (.setEnvironment _) hstart (fun hr => ?_) fun p _ => ?_)
  · -- systemd has accepted: from here on only the D-Bus side can fail
    have hn : NulFree vars := (not_refused_iff h).1 hr
    have hset := merge_assignments (e := w.systemd) h hn
    have hw : ∀ dbus, Wrote vars w
        { w with systemd := w.systemd.merge (ofAssignments (assignments vars)), dbus := dbus } := by
      refine fun dbus => ⟨rfl, fun k => ?_⟩
      rw [hset k]
      cases vars[k]? with
      | none => exact Or.inl rfl
      | some v => exact Or.inr ⟨v, rfl, rfl⟩
    refine ⟨hw _, wpc_ebind (wpc_look .isDbusBroker (hw _) ⟨rfl, fun _ => rfl⟩ ?_ nofun)⟩
    dsimp only
    split
    · exact ⟨hw _, fun _ => hset⟩
    · exact wpc_orFail (.updateActivationEnvironment _) (hw _) (fun _ => ⟨hw _, fun _ => hset⟩) fun p _ => ⟨hw _, nofun⟩
  · refine ⟨⟨?_, fun k => ?_⟩, nofun⟩
    · simp only [Prim.effectUpTo]
      split <;> rfl
    · simp only [Prim.effectUpTo]
      split
      · exact Or.inl rfl
      · rename_i hr
        exact merge_filter_cases h ((not_refused_iff h).1 (by simpa using hr)) p k

/-- **`unset_systemd_vars`**. -/
theorem unsetSystemdVars_spec (names : List Str) :
    (unsetSystemdVars names).wpc (handle may) (Erased names w)
      (fun r w' => r = .ok () → ∀ k, w'.systemd k = if k ∈ names then none else w.systemd k) w := by
  have hstart : ∀ dbus, Erased names w { w with dbus := dbus } := fun _ => ⟨rfl, fun _ => Or.inl rfl⟩
  have hpart : ∀ dbus p, Erased names w { w with dbus := dbus, systemd := w.systemd.erase (names.filter p) } := by
    refine fun dbus p => ⟨rfl, fun k => ?_⟩
    rw [w.systemd.erase_apply]
    split
    · rename_i hk
      exact Or.inr ⟨List.mem_of_mem_filter hk, rfl⟩
    · exact Or.inl rfl
  have hall : ∀ dbus, Erased names w { w with dbus := dbus, systemd := w.systemd.erase names } := by
    intro dbus
    simpa using hpart dbus fun _ => true
  have hlast : ∀ dbus e, (orFail e (perform (.unsetEnvironment names))).wpc (handle may) (Erased names w)
      (fun r w' => r = .ok () → ∀ k, w'.systemd k = if k ∈ names then none else w.systemd k)
      { w with dbus := dbus } := fun dbus e =>
    wpc_orFail (.unsetEnvironment _) (hstart _) (fun _ => ⟨hall _, fun _ => w.systemd.erase_apply names⟩)
      fun p _ => ⟨hpart _ p, nofun⟩
  unfold unsetSystemdVars
  simp only [ebind_eq]
  refine wpc_ebind (wpc_look .isDbusBroker (hstart w.dbus) ⟨rfl, fun _ => rfl⟩ ?_ nofun)
  dsimp only
  split
  · exact hlast w.dbus .dbus
  · refine wpc_ebind (wpc_orFail (.updateActivationEnvironment _) (hstart w.dbus) (fun _ => ?_) fun p _ => ?_)
    · exact ⟨hstart _, hlast _ _⟩
    · exact ⟨hstart w.dbus, nofun⟩

end

end Wsmr
