import Wsmr.Session.StateSpec
import Wsmr.Sysd.Updates

/-!
# Cleaning up again (`src/session/state.rs`)

`restore_and_clear_locked` when calls of the bus fail, with all else in order. It returns an error exactly
when one does (`cleanup_error_iff`), and then it has not touched the files and has left the environments on
the way to where they are to be (`Halfway`). From there, cleaning up leads to the same world as from the
start (`restored_of_halfway`).
-/

namespace Wsmr

open Text Std Effects Prog

/-! ## Failing calls -/

/-- Calls of the session bus. -/
def Prim.isBus : Prim → Bool
  | .environment | .setEnvironment _ | .unsetEnvironment _ | .isDbusBroker | .updateActivationEnvironment _ => true
  | _ => false

/-- One attempt. -/
def cleanup (fs : List Fault) (w : World) : Except Error Unit × World := runIo Prim.isBus restoreAndClearLocked fs w

def BusError (o : Prim) (r : Answer o.Value) : Prop := o.isBus = true ∧ r = .error ()

/-- A call of the bus fails in the attempt. -/
def BusFails (fs : List Fault) (w : World) : Prop :=
  Prog.Meets (S := prims) (handle Prim.isBus) BusError restoreAndClearLocked fs w

/-- Answers of a host on which nothing but the bus fails. -/
def BusAnswers (o : Prim) (r : Answer o.Value) : Prop := o.isBus = true ∨ ∃ a, r = .ok a

theorem busAnswers_handle (f : Fault) (o : Prim) (w : World) : BusAnswers o (handle Prim.isBus f o w).1 := by
  unfold BusAnswers handle
  cases hbus : o.isBus with
  | true => exact Or.inl rfl
  | false =>
    have hrefused : o.refused = false := by
      cases o with
      | setEnvironment as => cases hbus
      | _ => rfl
    refine Or.inr ⟨o.value w, ?_⟩
    rw [hrefused, Bool.false_and, Bool.false_and, Bool.or_false, if_neg (by simp)]

/-- The program tells of failing calls. -/
def TellsBus {α : Type} (p : Io α) : Prop := Prog.Tells (S := prims) BusError BusAnswers p

section
variable {α β : Type}

theorem tells_orFail (o : Prim) (e : Error) : TellsBus (orFail e (perform o)) := by
  intro r hr
  constructor
  · rintro ⟨-, rfl⟩
    exact ⟨e, rfl⟩
  · intro hgood
    cases r with
    | ok a => exact ⟨a, rfl⟩
    | error u =>
      rcases hr with hbus | ⟨a, ha⟩
      · exact absurd ⟨hbus, rfl⟩ hgood
      · cases ha

/-- A call of something else, whatever is made of its answer. -/
theorem tells_other {o : Prim} (ho : o.isBus = false) (f : Answer o.Value → α) :
    TellsBus ((perform o).bind fun r => .ret (.ok (f r)) : Prog prims (Except Error α)) := by
  intro r _
  constructor
  · rintro ⟨hbus, -⟩
    rw [ho] at hbus
    cases hbus
  · exact fun _ => ⟨f r, rfl⟩

theorem tells_pure (a : α) : TellsBus (pure a) := ⟨a, rfl⟩

theorem tells_bind {x : Io α} {f : α → Io β} (hx : TellsBus x) (hf : ∀ a, TellsBus (f a)) : TellsBus (x >>= f) := by
  unfold TellsBus
  rw [ebind_eq]
  exact tells_ebind hf hx

end

theorem tells_readFile (f : File) : TellsBus (readFile f) := tells_orFail _ _

theorem tells_anyState : TellsBus anyState := by
  have hexists : ∀ f, TellsBus (fileExists f) := fun f => tells_other rfl _
  refine tells_bind (hexists _) fun _ => tells_bind (hexists _) fun _ => tells_bind (hexists _) fun _ => tells_pure _

theorem tells_clearState : TellsBus clearState := by
  have hremove : ∀ f, TellsBus (removeFile f) := fun f => tells_other rfl fun _ => ()
  have hsweep : TellsBus sweepStrayPrepareVars := tells_other rfl fun _ => ()
  exact tells_bind (hremove _) fun _ => tells_bind (hremove _) fun _ => tells_bind (hremove _) fun _ => hsweep

theorem tells_unsetSystemdVars (names : List Str) : TellsBus (unsetSystemdVars names) := by
  refine tells_bind (tells_orFail _ _) fun broker => ?_
  cases broker with
  | true => exact tells_orFail _ _
  | false => exact tells_bind (tells_orFail _ _) fun _ => tells_orFail _ _

theorem tells_setSystemdVars (vars : Env) : TellsBus (setSystemdVars vars) := by
  refine tells_bind (tells_orFail _ _) fun _ => tells_bind (tells_orFail _ _) fun broker => ?_
  cases broker with
  | true => exact tells_pure _
  | false => exact tells_orFail _ _

theorem tells_restoreEnvironment : TellsBus restoreEnvironment := by
  have hgeneration : TellsBus readGeneration := tells_bind (tells_readFile _) fun _ => tells_pure _
  have hsystemd : TellsBus systemdVars := tells_bind (tells_orFail _ _) fun _ => tells_pure _
  have hlisted : ∀ current, TellsBus (listedNames current) := fun current => by
    cases current with
    | none => exact tells_pure _
    | some g => exact tells_bind (tells_readFile _) fun _ => tells_pure _
  have hunset : ∀ names, TellsBus (unsetAll names) := fun names => by
    unfold unsetAll
    split
    · exact tells_pure _
    · exact tells_unsetSystemdVars names
  have hset : ∀ vars, TellsBus (setAll vars) := fun vars => by
    unfold setAll
    split
    · exact tells_pure _
    · exact tells_setSystemdVars vars
  exact tells_bind hgeneration fun _ => tells_bind (hlisted _) fun _ => tells_bind (tells_readFile _) fun _ =>
    tells_bind hsystemd fun _ => tells_bind (hunset _) fun _ => hset _

theorem tells_restoreAndClearLocked : TellsBus restoreAndClearLocked := by
  refine tells_bind tells_anyState fun any => ?_
  cases any with
  | true => exact tells_bind tells_restoreEnvironment fun _ => tells_clearState
  | false => exact tells_pure _

/-- **An attempt is reported as failed** exactly when a call of the bus has failed. -/
theorem cleanup_error_iff (fs : List Fault) (w : World) : BusFails fs w ↔ ∃ e, (cleanup fs w).1 = .error e := by
  obtain ⟨herr, hok⟩ := @run_of_tells prims Unit World Fault Error _ (handle Prim.isBus) BusError BusAnswers
    busAnswers_handle restoreAndClearLocked fs w tells_restoreAndClearLocked
  refine ⟨herr, fun ⟨e, he⟩ => ?_⟩
  by_contra hnone
  obtain ⟨a, ha⟩ := hok hnone
  have hsame := ha.symm.trans he
  cases hsame

/-! ## What an attempt is to do -/

namespace World

/-- The names on the list that are the current generation's. -/
def listed (w : World) : List Str :=
  match w.disk.current with
  | none => []
  | some g => (w.disk.entries.toList.filter fun e => e.generation == g).map (·.name)

def owedNames (w : World) : List Str := namesToUnset w.listed w.disk.pre w.systemd.vars.kept

def unset (w : World) (names : List Str) : World where
  systemd := (unsetUpdate names).systemd w.systemd
  dbus := if w.broker then w.dbus else (unsetUpdate names).dbus w.dbus
  broker := w.broker
  disk := w.disk

def set (w : World) (vars : Env) : World where
  systemd := (setUpdate vars).systemd w.systemd
  dbus := if w.broker then w.dbus else (setUpdate vars).dbus w.dbus
  broker := w.broker
  disk := w.disk

def restored (w : World) : World := (w.unset w.owedNames).set w.disk.pre

def cleared (w : World) : World :=
  { w with disk := (((w.disk.remove .cleanupList).remove .envPre).remove .generation).sweep fun _ => true }

theorem ext_apply {w t : World} (systemd : ∀ k, w.systemd k = t.systemd k) (dbus : ∀ k : Str, w.dbus[k]? = t.dbus[k]?)
    (broker : w.broker = t.broker) (disk : w.disk = t.disk) : w = t := by
  obtain ⟨s, d, b, f⟩ := w
  obtain ⟨s', d', b', f'⟩ := t
  obtain rfl : s = s' := ActEnv.ext_apply systemd
  obtain rfl : d = d' := ExtTreeMap.ext_getElem? dbus
  obtain rfl : b = b' := broker
  obtain rfl : f = f' := disk
  rfl

end World

section
variable {w t : World}

theorem mem_listed {k : Str} : k ∈ w.listed ↔ w.disk.Listed k := by
  unfold World.listed Disk.Listed
  cases w.disk.current with
  | none => simp
  | some g =>
    simp only [List.mem_map, List.mem_filter, ExtTreeSet.mem_toList, beq_iff_eq, Option.some.injEq, exists_eq_left']
    constructor
    · rintro ⟨⟨g', k'⟩, ⟨he, rfl⟩, rfl⟩
      exact he
    · exact fun he => ⟨⟨g, k⟩, ⟨he, rfl⟩, rfl⟩

theorem mem_owedNames {k : Str} :
    k ∈ w.owedNames ↔ k ∈ w.disk.owed ∧ w.disk.snapshot k = none ∧ w.systemd k ≠ none :=
  mem_namesToUnset_iff (fun _ => mem_listed) k

theorem getElem?_nothing (names : List Str) (k : Str) :
    (ExtTreeMap.ofList (names.map fun n => (n, ([] : Str))) : Env)[k]? = if k ∈ names then some [] else none := by
  split
  · rename_i hk
    rw [ExtTreeMap.ofList_eq_foldl]
    refine TreeMap.getElem?_foldl_insert_of_forall ?_ (Or.inl ⟨(k, []), List.mem_map_of_mem hk, rfl⟩)
    rintro p hp -
    obtain ⟨n, -, rfl⟩ := List.mem_map.1 hp
    rfl
  · rename_i hk
    rw [Option.eq_none_iff_forall_ne_some]
    intro v hv
    obtain ⟨n, hn, he⟩ := List.mem_map.1 (TreeMap.mem_of_getElem?_ofList hv)
    exact hk ((Prod.mk.inj he).1 ▸ hn)

theorem unset_systemd (names : List Str) (k : Str) :
    (w.unset names).systemd k = if k ∈ names then none else w.systemd k := w.systemd.erase_apply names k

theorem unset_dbus (names : List Str) (k : Str) : (w.unset names).dbus[k]? =
    if w.broker = false ∧ k ∈ names then some [] else w.dbus[k]? := by
  unfold World.unset unsetUpdate
  cases hb : w.broker with
  | true => simp
  | false =>
    simp only [Bool.false_eq_true, if_false, true_and, TreeMap.getElem?_insertMany_toList, getElem?_nothing]
    split <;> rfl

theorem set_systemd {vars : Env} (h : KeptNames vars) (hn : NulFree vars) (k : Str) :
    (w.set vars).systemd k = vars[k]?.or (w.systemd k) := merge_assignments h hn k

theorem set_dbus (vars : Env) (k : Str) : (w.set vars).dbus[k]? =
    if w.broker then w.dbus[k]? else vars[k]?.or w.dbus[k]? := by
  unfold World.set setUpdate
  cases hb : w.broker with
  | true => simp
  | false => simp only [Bool.false_eq_true, if_false, TreeMap.getElem?_insertMany_toList]

theorem set_of_broker {vars : Env} (hb : w.broker = true) :
    w.set vars = { w with systemd := (setUpdate vars).systemd w.systemd } := by
  rw [World.set, if_pos hb]

theorem set_of_not_broker {vars : Env} (hb : w.broker ≠ true) : w.set vars =
    { w with systemd := (setUpdate vars).systemd w.systemd, dbus := (setUpdate vars).dbus w.dbus } := by
  rw [World.set, if_neg hb]

theorem keptNames_pre (d : Disk) : KeptNames d.pre := fun _ _ => keepName_of_pre

theorem nulFree_pre (d : Disk) : NulFree d.pre := nulFree_loadEnv _

theorem restored_systemd (k : Str) : w.restored.systemd k = settled w k := by
  unfold World.restored
  rw [set_systemd (keptNames_pre _) (nulFree_pre _), unset_systemd]
  exact or_unset_eq_settled (fun _ => mem_owedNames) k

/-! ## Half way -/

/-- An attempt that has not gone through: names have been unset, or variables set. -/
inductive Halfway (w t : World) : Prop where
  | start (h : t = w)
  | unsetting (systemd : ActEnv) (hs : ∀ k, systemd k = w.systemd k ∨ (k ∈ w.owedNames ∧ systemd k = none))
      (h : t = { w.unset w.owedNames with systemd := systemd })
  | setting (systemd : ActEnv) (dbus : Env)
      (hs : ∀ k, systemd k = (w.unset w.owedNames).systemd k ∨ (∃ v, w.disk.pre[k]? = some v ∧ systemd k = some v))
      (hd : dbus = (w.unset w.owedNames).dbus ∨ dbus = w.restored.dbus)
      (h : t = { w.unset w.owedNames with systemd := systemd, dbus := dbus })

theorem Halfway.disk (h : Halfway w t) : t.disk = w.disk := by
  cases h with
  | start h => rw [h]
  | unsetting systemd hs h => rw [h]; rfl
  | setting systemd dbus hs hd h => rw [h]; rfl

theorem Halfway.broker (h : Halfway w t) : t.broker = w.broker := by
  cases h with
  | start h => rw [h]
  | unsetting systemd hs h => rw [h]; rfl
  | setting systemd dbus hs hd h => rw [h]; rfl

theorem settled_of_owedNames {k : Str} (h : k ∈ w.owedNames) : settled w k = none := by
  obtain ⟨ho, hs, -⟩ := mem_owedNames.1 h
  exact Ledger.settle_owed hs ho

theorem Halfway.between (h : Halfway w t) :
    Ledger.Between w.disk.snapshot w.disk.owed w.systemd t.systemd := by
  cases h with
  | start h => exact h ▸ Ledger.between_refl
  | unsetting systemd hs h =>
    subst h
    intro k
    refine (hs k).imp_right fun ⟨hk, hnone⟩ => ?_
    exact hnone.trans (settled_of_owedNames hk).symm
  | setting systemd dbus hs hd h =>
    subst h
    intro k
    rcases hs k with hsame | ⟨v, hv, hset⟩
    · show systemd k = _ ∨ systemd k = _
      rw [hsame, unset_systemd]
      split
      · rename_i hk
        exact Or.inr (settled_of_owedNames hk).symm
      · exact Or.inl rfl
    · exact Or.inr (hset.trans (Ledger.settle_snapshot hv).symm)

/-- No name is owed that was not owed at the start. -/
theorem Halfway.owedNames (h : Halfway w t) {k : Str} (hk : k ∈ t.owedNames) : k ∈ w.owedNames := by
  rw [mem_owedNames, h.disk] at hk
  obtain ⟨ho, hs, hne⟩ := hk
  refine mem_owedNames.2 ⟨ho, hs, fun hnone => hne ?_⟩
  rcases h.between k with he | he
  · rw [he, hnone]
  · rw [he, Ledger.settle_owed hs ho]

theorem restored_dbus (k : Str) : w.restored.dbus[k]? =
    if w.broker then w.dbus[k]?
    else w.disk.pre[k]?.or (if k ∈ w.owedNames then some [] else w.dbus[k]?) := by
  unfold World.restored
  rw [set_dbus, unset_dbus]
  show (if w.broker then _ else _) = _
  cases w.broker with
  | true => simp
  | false => simp

/-- In the environment of the D-Bus daemon, for a name without a value to be put back. -/
theorem Halfway.dbus (h : Halfway w t) {k : Str} (hb : w.broker = false) (hp : w.disk.pre[k]? = none) :
    t = w ∨ t.dbus[k]? = if k ∈ w.owedNames then some [] else w.dbus[k]? := by
  have hunset : (w.unset w.owedNames).dbus[k]? = if k ∈ w.owedNames then some [] else w.dbus[k]? := by
    simp [unset_dbus, hb]
  have hrestored : w.restored.dbus[k]? = if k ∈ w.owedNames then some [] else w.dbus[k]? := by
    simp [restored_dbus, hb, hp]
  cases h with
  | start h => exact Or.inl h
  | unsetting systemd hs h => exact Or.inr (h ▸ hunset)
  | setting systemd dbus hs hd h =>
    subst h
    rcases hd with rfl | rfl
    · exact Or.inr hunset
    · exact Or.inr hrestored

theorem Halfway.dbus_of_broker (h : Halfway w t) (hb : w.broker = true) (k : Str) : t.dbus[k]? = w.dbus[k]? := by
  have hunset : (w.unset w.owedNames).dbus[k]? = w.dbus[k]? := by simp [unset_dbus, hb]
  cases h with
  | start h => rw [h]
  | unsetting systemd hs h => exact h ▸ hunset
  | setting systemd dbus hs hd h =>
    subst h
    rcases hd with rfl | rfl
    · exact hunset
    · simp [restored_dbus, hb]

/-- **From half way**, restoring leads to the same environments. -/
theorem restored_of_halfway (h : Halfway w t) : t.restored = w.restored := by
  refine World.ext_apply (fun k => ?_) (fun k => ?_) h.broker h.disk
  · rw [restored_systemd, restored_systemd, settled, settled, h.disk, Ledger.settle_of_between h.between]
  · rw [restored_dbus, restored_dbus, h.broker, h.disk]
    cases hb : w.broker with
    | true => simpa using h.dbus_of_broker hb k
    | false =>
      cases hp : w.disk.pre[k]? with
      | some v => rfl
      | none =>
        simp only [Bool.false_eq_true, if_false, Option.none_or]
        rcases h.dbus hb hp with rfl | hdbus
        · rfl
        · rw [hdbus]
          by_cases hk : k ∈ t.owedNames
          · rw [if_pos hk, if_pos (h.owedNames hk)]
          · rw [if_neg hk]

/-! ## One attempt -/

variable {may : Prim → Bool}

theorem unset_nil : w.unset [] = w := by
  refine World.ext_apply (fun k => ?_) (fun k => ?_) rfl rfl
  · simp [unset_systemd]
  · simp [unset_dbus]

theorem set_empty : w.set ∅ = w := by
  refine World.ext_apply (fun k => ?_) (fun k => ?_) rfl rfl
  · rw [set_systemd (fun k v hk => by simp at hk) (fun k v hk => by simp at hk)]
    simp
  · simp [set_dbus]

theorem listedNames_halfway : (listedNames w.disk.current).wpc (handle may) (Halfway w)
    (fun r t => t = w ∧ ∀ listed, r = .ok listed → listed = w.listed) w := by
  unfold listedNames World.listed
  cases w.disk.current with
  | none => exact ⟨.start rfl, rfl, fun listed h => (Except.ok.inj h).symm⟩
  | some g =>
    dsimp only
    rw [ebind_eq]
    exact wpc_ebind (wpc_readFile (.start rfl) ⟨.start rfl, rfl, fun listed h => (Except.ok.inj h).symm⟩
      fun _ => ⟨rfl, nofun⟩)

theorem unsetAll_halfway : (unsetAll w.owedNames).wpc (handle may) (Halfway w)
    (fun r t => r = .ok () → t = w.unset w.owedNames) w := by
  have hunset : ∀ dbus, dbus = (w.unset w.owedNames).dbus → ∀ e,
      (orFail e (perform (.unsetEnvironment w.owedNames))).wpc (handle may) (Halfway w)
        (fun r t => r = .ok () → t = w.unset w.owedNames) { w with dbus := dbus } := by
    rintro dbus rfl e
    have hpart : ∀ names ⊆ w.owedNames, Halfway w
        { w with systemd := w.systemd.erase names, dbus := (w.unset w.owedNames).dbus } := by
      refine fun names hnames => .unsetting (w.systemd.erase names) (fun k => ?_) rfl
      rw [w.systemd.erase_apply]
      split
      · exact Or.inr ⟨hnames ‹_›, rfl⟩
      · exact Or.inl rfl
    have hnow : Halfway w { w with dbus := (w.unset w.owedNames).dbus } :=
      .unsetting w.systemd (fun _ => Or.inl rfl) rfl
    exact wpc_orFail (.unsetEnvironment _) hnow (fun _ => ⟨hpart _ fun _ => id, fun _ => rfl⟩)
      fun p _ => ⟨hpart _ (List.filter_subset_self _), nofun⟩
  unfold unsetAll
  split
  · rename_i h
    rw [List.isEmpty_iff.1 h, unset_nil]
    exact ⟨.start rfl, fun _ => rfl⟩
  · unfold unsetSystemdVars
    simp only [ebind_eq]
    refine wpc_ebind (wpc_look .isDbusBroker (.start rfl) ⟨rfl, fun _ => rfl⟩ ?_ nofun)
    dsimp only
    split
    · rename_i hb
      exact hunset w.dbus (by simp only [World.unset, show w.broker = true from hb, if_true]) _
    · rename_i hb
      have hdbus : (unsetUpdate w.owedNames).dbus w.dbus = (w.unset w.owedNames).dbus := by
        rw [World.unset, if_neg (show ¬ w.broker = true from hb)]
      refine wpc_ebind (wpc_orFail (.updateActivationEnvironment _) (.start rfl) (fun _ => ?_) fun p _ => ?_)
      · have hlast := hunset _ hdbus (.partialEnvUpdate "unset".toList "the D-Bus daemon".toList "systemd".toList)
        exact ⟨wpc_now hlast, hlast⟩
      · exact ⟨.start rfl, nofun⟩

theorem setAll_halfway : (setAll w.disk.pre).wpc (handle may) (Halfway w)
    (fun r t => r = .ok () → t = w.restored) (w.unset w.owedNames) := by
  have hstart : Halfway w (w.unset w.owedNames) := by
    refine .unsetting (w.unset w.owedNames).systemd (fun k => ?_) rfl
    rw [unset_systemd]
    split
    · exact Or.inr ⟨‹_›, rfl⟩
    · exact Or.inl rfl
  have hset : ∀ dbus, dbus = (w.unset w.owedNames).dbus ∨ dbus = w.restored.dbus →
      Halfway w { w.restored with dbus := dbus } := by
    refine fun dbus hd => .setting w.restored.systemd dbus (fun k => ?_) hd rfl
    rw [World.restored, set_systemd (keptNames_pre _) (nulFree_pre _)]
    cases hp : w.disk.pre[k]? with
    | none => exact Or.inl rfl
    | some v => exact Or.inr ⟨v, rfl, rfl⟩
  unfold setAll
  split
  · rename_i h
    refine ⟨hstart, fun _ => ?_⟩
    rw [World.restored, ExtTreeMap.isEmpty_iff.1 h, set_empty]
  · unfold setSystemdVars
    simp only [ebind_eq]
    refine wpc_ebind (wpc_orFail (.setEnvironment _) hstart (fun _ => ?_) fun p _ => ?_)
    · refine ⟨hset _ (Or.inl rfl), wpc_ebind (wpc_look .isDbusBroker (hset _ (Or.inl rfl)) ⟨rfl, fun _ => rfl⟩ ?_ nofun)⟩
      dsimp only
      split
      · rename_i hb
        refine ⟨hset _ (Or.inl rfl), fun _ => ?_⟩
        exact (set_of_broker (show (w.unset w.owedNames).broker = true from hb)).symm
      · rename_i hb
        have hdone := @set_of_not_broker (w.unset w.owedNames) w.disk.pre hb
        refine wpc_orFail (.updateActivationEnvironment _) (hset _ (Or.inl rfl)) (fun _ => ⟨?_, fun _ => hdone.symm⟩)
          fun p _ => ⟨hset _ (Or.inl rfl), nofun⟩
        exact hset _ (Or.inr (congrArg World.dbus hdone.symm))
    · refine ⟨?_, nofun⟩
      simp only [Prim.effectUpTo]
      split
      · exact hstart
      · exact .setting _ _ (merge_filter_cases (keptNames_pre _) (nulFree_pre _) p) (Or.inl rfl) rfl

theorem restoreEnvironment_halfway : restoreEnvironment.wpc (handle may) (Halfway w)
    (fun r t => r = .ok () → t = w.restored) w := by
  have hlook : ∀ t, w = t → Halfway w t := fun _ h => .start h.symm
  unfold restoreEnvironment
  simp only [ebind_eq]
  refine wpc_eseq readGeneration_spec hlook ?_ fun _ _ _ _ => nofun
  rintro c _ rfl hc
  obtain rfl := hc c rfl
  refine wpc_eseq listedNames_halfway (fun _ => id) ?_ fun _ _ _ _ => nofun
  rintro listed _ - ⟨rfl, hl⟩
  obtain rfl := hl listed rfl
  refine wpc_ebind (wpc_readFile (.start rfl) ?_ fun _ => nofun)
  refine wpc_eseq systemdVars_spec hlook ?_ fun _ _ _ _ => nofun
  rintro systemd _ rfl hv
  obtain rfl := hv systemd rfl
  refine wpc_eseq unsetAll_halfway (fun _ => id) ?_ fun _ _ _ _ => nofun
  rintro _ t - h
  rw [h rfl]
  exact setAll_halfway

/-! Nothing but the bus fails: the files are removed. -/

theorem removeFile_done {f : File} {Q : Except Error Unit → World → Prop}
    (hok : Q (.ok ()) { w with disk := w.disk.remove f }) :
    (removeFile f).wpc (handle Prim.isBus) (fun _ => True) Q w :=
  wpc_bind (wpc_perform (.remove f) trivial (fun _ => ⟨trivial, trivial, hok⟩)
    fun p h => absurd h (by simp [Prim.refused, Prim.isBus]))

theorem sweepStrayPrepareVars_done {Q : Except Error Unit → World → Prop}
    (hok : Q (.ok ()) { w with disk := w.disk.sweep fun _ => true }) :
    sweepStrayPrepareVars.wpc (handle Prim.isBus) (fun _ => True) Q w :=
  wpc_bind (wpc_perform .sweepVars trivial (fun _ => ⟨trivial, trivial, hok⟩)
    fun p h => absurd h (by simp [Prim.refused, Prim.isBus]))

theorem clearState_done : clearState.wpc (handle Prim.isBus) (fun _ => True)
    (fun r t => r = .ok () ∧ t = w.cleared) w := by
  unfold clearState
  simp only [ebind_eq]
  refine wpc_ebind (removeFile_done ?_)
  refine wpc_ebind (removeFile_done ?_)
  refine wpc_ebind (removeFile_done ?_)
  exact sweepStrayPrepareVars_done ⟨rfl, rfl⟩

/-- **One attempt**: everything is done, or it has got half way. -/
theorem restoreAndClearLocked_done (hst : w.disk.HasState = true) :
    restoreAndClearLocked.wpc (handle Prim.isBus) (fun _ => True) (fun r t => match r with
      | .ok _ => t = w.restored.cleared
      | .error _ => Halfway w t) w := by
  unfold restoreAndClearLocked
  simp only [ebind_eq]
  refine wpc_eseq anyState_spec (fun _ _ => trivial) ?_ fun _ _ _ h => absurd h nofun
  rintro any _ rfl h
  obtain rfl := Except.ok.inj h
  rw [hst]
  refine wpc_eseq restoreEnvironment_halfway (fun _ _ => trivial) ?_ fun _ _ h _ => h
  rintro _ t - h
  rw [h rfl]
  refine wpc_mono (fun _ => id) (fun r t _ h => ?_) clearState_done
  obtain ⟨rfl, rfl⟩ := h
  rfl

theorem cleanup_done (fs : List Fault) (hst : w.disk.HasState = true) :
    match (cleanup fs w).1 with
      | .ok _ => (cleanup fs w).2 = w.restored.cleared
      | .error _ => Halfway w (cleanup fs w).2 :=
  (runIo_spec Prim.isBus fs (restoreAndClearLocked_done hst)).2

theorem cleanup_of_busFails {fs : List Fault} (hst : w.disk.HasState = true) (h : BusFails fs w) :
    Halfway w (cleanup fs w).2 := by
  obtain ⟨e, he⟩ := (cleanup_error_iff fs w).1 h
  have hdone := cleanup_done fs hst
  rwa [he] at hdone

theorem cleanup_of_not_busFails {fs : List Fault} (hst : w.disk.HasState = true) (h : ¬ BusFails fs w) :
    cleanup fs w = (.ok (), w.restored.cleared) := by
  have hdone := cleanup_done fs hst
  cases hr : (cleanup fs w).1 with
  | error e => exact absurd ((cleanup_error_iff fs w).2 ⟨e, hr⟩) h
  | ok a =>
    rw [hr] at hdone
    exact Prod.ext hr hdone

end

/-! ## Any number of attempts -/

/-- After attempts in each of which a call of the bus has failed. -/
inductive FailedAttempts (w : World) : World → Prop where
  | none : FailedAttempts w w
  | attempt {t : World} (h : FailedAttempts w t) (fs : List Fault) (hf : BusFails fs t) :
    FailedAttempts w (cleanup fs t).2

/-- What failed attempts leave: the files, and a world with the same way out. -/
theorem failedAttempts_inv {w t : World} (hst : w.disk.HasState = true) (h : FailedAttempts w t) :
    t.disk = w.disk ∧ t.restored = w.restored := by
  induction h with
  | none => exact ⟨rfl, rfl⟩
  | @attempt t _ fs hf ih =>
    obtain ⟨hdisk, hrestored⟩ := ih
    have hhalf : Halfway t (cleanup fs t).2 := cleanup_of_busFails (hdisk ▸ hst) hf
    exact ⟨hhalf.disk.trans hdisk, (restored_of_halfway hhalf).trans hrestored⟩

/-- **Cleanup is fail-closed and can be retried.** -/
theorem cleanup_retried {w t : World} (hst : w.disk.HasState = true) (h : FailedAttempts w t) :
    (∀ fs, BusFails fs t → (∃ e, (cleanup fs t).1 = .error e) ∧ (cleanup fs t).2.disk = w.disk) ∧
      ∀ fs fs', ¬ BusFails fs t → ¬ BusFails fs' w →
        (cleanup fs t).1 = .ok () ∧ (cleanup fs t).2 = (cleanup fs' w).2 ∧
          ∀ f, f.isState → (cleanup fs t).2.disk f = none := by
  obtain ⟨hdisk, hrestored⟩ := failedAttempts_inv hst h
  have hst' : t.disk.HasState = true := hdisk ▸ hst
  refine ⟨fun fs hf => ⟨(cleanup_error_iff fs t).1 hf, ?_⟩, fun fs fs' hf hf' => ?_⟩
  · exact (cleanup_of_busFails hst' hf).disk.trans hdisk
  · rw [cleanup_of_not_busFails hst' hf, cleanup_of_not_busFails hst hf', hrestored]
    refine ⟨rfl, rfl, fun f hstate => ?_⟩
    cases f with
    | generation | envPre | cleanupList => rfl
    | _ => cases hstate

/-- A session that has set `A` and `B`, and a value to be put back. -/
def owing : World where
  systemd := ActEnv.merge ⟨∅, ActEnv.wf_empty⟩ (ExtTreeMap.ofList [("A".toList, "1".toList), ("B".toList, "2".toList)])
  dbus := ExtTreeMap.ofList [("A".toList, "1".toList), ("B".toList, "2".toList)]
  broker := false
  disk
    | .generation => some "g\n".toList
    | .envPre => some "P=3\x00".toList
    | .cleanupList => some "g A\ng B\n".toList
    | _ => none

/-- The unsetting stops after `A`. -/
def stopsAfterA : List Fault := List.replicate 9 default ++ [⟨true, fun k => k == "A".toList⟩]

/-- `A` is gone and `B` is not; the next attempt goes through. -/
theorem cleanup_retried_owing :
    (cleanup stopsAfterA owing).2.systemd.vars.toList = [("B".toList, "2".toList)] ∧
      (cleanup [] (cleanup stopsAfterA owing).2).2 = (cleanup [] owing).2 := by
  have hstops : BusFails stopsAfterA owing :=
    (cleanup_error_iff _ _).2 ⟨.partialEnvUpdate "unset".toList "the D-Bus daemon".toList "systemd".toList,
      by decide +kernel⟩
  have hworks : ∀ w, (cleanup [] w).1 = .ok () → ¬ BusFails [] w := fun w hok hf => by
    obtain ⟨e, he⟩ := (cleanup_error_iff [] w).1 hf
    rw [hok] at he
    cases he
  have h := (cleanup_retried (w := owing) (by decide) (FailedAttempts.none.attempt stopsAfterA hstops)).2 [] []
    (hworks _ (by decide +kernel)) (hworks _ (by decide +kernel))
  exact ⟨by decide +kernel, h.2.1⟩

end Wsmr
