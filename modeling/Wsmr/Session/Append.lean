import Wsmr.Lib.Mutex
import Wsmr.Session.Race

/-!
# Concurrent `append_cleanup` calls

Here the steps are the single calls of `append_cleanup`: taking `state.lock`, reading the generation
and the list, replacing the list, giving the lock back. Any number of callers take them in any order,
and any of them may be killed between two (its `flock` is free then). No entry is lost: the list only
grows (`Grown`), and a call that returned `Ok` finds its names in it.
-/

namespace Wsmr

open Text Std Effects

/-- The calls on `state.lock`. -/
def Prim.lockUse : (o : Prim) → LockUse (Answer o.Value)
  | .lock => .acquire fun r => match r with
    | .ok _ => true
    | .error _ => false
  | .unlock => .release
  | _ => .plain

/-- Callers of `append_cleanup` that share the files and the lock. -/
def appenders (may : Prim → Bool) : Effects.Machine prims (Guarded World) Fault Unit := mutex (handle may) Prim.lockUse

def runAppends (may : Prim → Bool) (es : List (Event Fault Unit)) (w : World) (calls : List (List Str)) :
    Pool prims (Except Error Unit) (Guarded World) :=
  (appenders may).exec es ⟨⟨w, none⟩, (calls.map appendCleanup).map some⟩

def lockRefused {α : Type} : Answer Unit → Option (Except Error α)
  | .ok _ => none
  | .error _ => some (.error (.io "state.lock".toList))

theorem locked_eq_critical {α : Type} (body : Io α) :
    locked body = critical (S := prims) .lock .unlock lockRefused body := by
  unfold locked critical
  rw [Prog.ebind_eq]
  refine congrArg (Prog.op (S := prims) Prim.lock) (funext fun x => ?_)
  cases x <;> rfl

/-- Some call wants `e` recorded. -/
def Requested (calls : List (List Str)) (w : World) (e : CleanupEntry) : Prop :=
  w.disk.current = some e.generation ∧ keepName e.name = true ∧ ∃ names ∈ calls, e.name ∈ names

/-- Only the list has changed, by being replaced with a larger one. -/
structure Grown (calls : List (List Str)) (w t : World) : Prop where
  files : ∀ f, f ≠ .cleanupList → t.disk f = w.disk f
  text : t.disk .cleanupList = w.disk .cleanupList ∨
    (w.disk.current ≠ none ∧ ∃ s, ValidEntries s ∧ t.disk .cleanupList = some (writeCleanupEntries s))
  keeps : ∀ e ∈ w.disk.entries, e ∈ t.disk.entries
  adds : ∀ e ∈ t.disk.entries, e ∈ w.disk.entries ∨ Requested calls w e

section
variable {may : Prim → Bool} {calls : List (List Str)} {w t u : World}

theorem Grown.refl : Grown calls w w := ⟨fun _ _ => rfl, Or.inl rfl, fun _ => id, fun _ => Or.inl⟩

theorem Grown.current (h : Grown calls w t) : t.disk.current = w.disk.current := by
  rw [Disk.current, h.files _ (by decide)]
  rfl

theorem Grown.trans (h : Grown calls w t) (h' : Grown calls t u) : Grown calls w u where
  files f hf := (h'.files f hf).trans (h.files f hf)
  text := by
    rcases h'.text with e | ⟨hc, hs⟩
    · rw [e]; exact h.text
    · exact Or.inr ⟨h.current ▸ hc, hs⟩
  keeps e he := h'.keeps e (h.keeps e he)
  adds e he := by
    rcases h'.adds e he with he | ⟨hc, hr⟩
    · exact h.adds e he
    · exact Or.inr ⟨h.current ▸ hc, hr⟩

/-- What a call has achieved when it returns. -/
def Recorded (calls : List (List Str)) (i : Nat) (r : Except Error Unit) (t : World) : Prop :=
  r = .ok () → ∃ g, t.disk.current = some g ∧
    ∀ names, calls[i]? = some names → ∀ name ∈ names, keepName name = true → (⟨g, name⟩ : CleanupEntry) ∈ t.disk.entries

/-- A call that has failed was promised nothing. -/
theorem recorded_error {i : Nat} {e : Error} : Recorded calls i (.error e) t := by
  intro h
  cases h

theorem Recorded.grown {i : Nat} {r : Except Error Unit} (hg : Grown calls t u) (h : Recorded calls i r t) :
    Recorded calls i r u := by
  intro hr
  obtain ⟨g, hc, hn⟩ := h hr
  exact ⟨g, hg.current.trans hc, fun names hi name hname hk => hg.keeps _ (hn names hi name hname hk)⟩

/-- Replacing the list with the merged one. -/
theorem grown_record {g : Str} {names : List Str} (hg : TagOk g) (hc : w.disk.current = some g)
    (hn : names ∈ calls) : Grown calls w (w.record g names) where
  files f hf := disk_record hf
  text := Or.inr ⟨by simp [hc], (insertNames g names w.disk.entries).1,
    validEntries_insertNames hg (validEntries_read _), by simp [World.record]⟩
  keeps e he := by
    rw [entries_record hg]
    exact mem_insertNames.2 (Or.inl he)
  adds e he := by
    rw [entries_record hg] at he
    rcases mem_insertNames.1 he with he | ⟨rfl, hmem, hk⟩
    · exact Or.inl he
    · exact Or.inr ⟨hc, hk, names, hn, hmem⟩

theorem moves_orFail {P : Prim → Prop} {R : World → World → Prop} (o : Prim) {e : Error}
    {Q : Except Error o.Value → World → Prop} (hP : P o)
    (hok : R w (o.effect w) ∧ Q (.ok (o.value w)) (o.effect w))
    (herr : ∀ p, R w (o.effectUpTo p w) ∧ Q (.error e) (o.effectUpTo p w)) :
    (orFail e (perform o)).moves (handle may) P R Q w := by
  refine ⟨hP, fun f => ?_⟩
  unfold handle
  split
  · exact herr f.reaches
  · exact hok

theorem recorded_of_entries {g : Str} {names : List Str} {i : Nat} {r : Except Error Unit}
    (hi : calls[i]? = some names) (hc : t.disk.current = some g)
    (he : t.disk.entries = (insertNames g names w.disk.entries).1) : Recorded calls i r t := by
  refine fun _ => ⟨g, hc, fun names' hi' name hname hk => ?_⟩
  obtain rfl := Option.some.inj (hi.symm.trans hi')
  rw [he]
  exact mem_insertNames.2 (Or.inr ⟨rfl, hname, hk⟩)

/-- **The section of `append_cleanup`** by itself. -/
theorem moves_appendLocked {i : Nat} {names : List Str} (hi : calls[i]? = some names)
    (htag : ∀ g, w.disk.current = some g → TagOk g) :
    Prog.moves (S := prims) (handle may) (fun o => o.lockUse = .plain) (Grown calls) (Recorded calls i)
      (appendLocked names) w := by
  unfold appendLocked readGeneration
  simp only [Prog.ebind_eq]
  refine Prog.moves_ebind (Prog.moves_ebind (moves_orFail (.read .generation) rfl ⟨.refl, ?_⟩ fun _ =>
    ⟨.refl, recorded_error⟩))
  change Prog.moves (S := prims) (handle may) _ _ _ ((fun current => _) w.disk.current) w
  cases hc : w.disk.current with
  | none => exact recorded_error
  | some g =>
    dsimp only
    refine Prog.moves_ebind (moves_orFail (.read .cleanupList) rfl ⟨.refl, ?_⟩ fun _ => ⟨.refl, recorded_error⟩)
    dsimp only
    split
    · have hgrown : Grown calls w (w.record g names) := grown_record (htag g hc) hc (List.mem_of_getElem? hi)
      exact moves_orFail (.write .cleanupList _) rfl
        ⟨hgrown, recorded_of_entries hi (hgrown.current.trans hc) (entries_record (htag g hc))⟩ fun _ =>
        ⟨.refl, recorded_error⟩
    · rename_i hadd
      exact recorded_of_entries hi hc (insertNames_unchanged (Bool.not_eq_true _ ▸ hadd)).symm

/-- Many callers at once: the list only grows, and who has returned `Ok` finds its names in it. -/
theorem grown_runAppends (may : Prim → Bool) (calls : List (List Str))
    (htag : ∀ g, w.disk.current = some g → TagOk g) (es : List (Event Fault Unit)) :
    let c := runAppends may es w calls
    Grown calls w c.shared.state ∧
      ∀ i y, c.procs[i]? = some (some (.ret y)) → Recorded calls i y c.shared.state := by
  have hprogs : calls.map appendCleanup = (calls.map appendLocked).map
      (critical (S := prims) .lock .unlock lockRefused) := by
    rw [List.map_map]
    exact List.map_congr_left fun names _ => locked_eq_critical _
  have hacq : Prim.lockUse .lock = .acquire fun x => (lockRefused (α := Unit) x).isNone :=
    congrArg LockUse.acquire (funext fun x => by cases x <;> rfl)
  have hrel : Prim.lockUse .unlock = .release := rfl
  have hstill : ∀ f t, (handle may f .lock t).2 = t ∧ (handle may f .unlock t).2 = t := fun f t => by
    constructor <;> (unfold handle; split <;> rfl)
  have hbody : ∀ (i : Nat) (p : Prog prims (Except Error Unit)) (t : World),
      (calls.map appendLocked)[i]? = some p → Grown calls w t →
      Prog.moves (S := prims) (handle may) (fun o => o.lockUse = .plain) (Grown calls) (Recorded calls i) p t := by
    intro i p t hp hg
    rw [List.getElem?_map, Option.map_eq_some_iff] at hp
    obtain ⟨names, hi, rfl⟩ := hp
    exact moves_appendLocked hi (hg.current ▸ htag)
  have hrefused : ∀ {i : Nat} {x : Answer Unit} {y : Except Error Unit} {t : World},
      lockRefused x = some y → Recorded calls i y t := by
    rintro i (_ | _) y t hx
    · obtain rfl := Option.some.inj hx
      exact recorded_error
    · cases hx
  rw [runAppends, hprogs]
  exact critical_rule (S := prims) (R := Grown calls) (Q := Recorded calls) (fun _ => .refl) Grown.trans hacq hrel hstill
    (fun hg hr => hr.grown hg) hbody hrefused es

/-- What holds at every moment of concurrent calls that started in `w`. -/
structure NothingLost (calls : List (List Str)) (w : World) (c : Pool prims (Except Error Unit) (Guarded World)) :
    Prop where
  /-- The list file is as it was or a well-formed list. -/
  wellFormed : c.shared.state.disk .cleanupList = w.disk .cleanupList ∨ ∃ s, ValidEntries s ∧
    c.shared.state.disk .cleanupList = some (writeCleanupEntries s) ∧ c.shared.state.disk.entries = s
  keeps : ∀ e ∈ w.disk.entries, e ∈ c.shared.state.disk.entries
  /-- Who has returned `Ok` finds its kept names in the list. -/
  recorded : ∀ (i : Nat) (names : List Str), calls[i]? = some names → c.procs[i]? = some (some (.ret (.ok ()))) →
    ∃ g, w.disk.current = some g ∧
      ∀ name ∈ names, keepName name = true → (⟨g, name⟩ : CleanupEntry) ∈ c.shared.state.disk.entries
  adds : ∀ e ∈ c.shared.state.disk.entries, e ∈ w.disk.entries ∨ Requested calls w e
  noGeneration : w.disk.current = none → c.shared.state.disk .cleanupList = w.disk .cleanupList ∧
    ∀ (i : Nat) (r : Except Error Unit), c.procs[i]? = some (some (.ret r)) → r ≠ .ok ()

/-- **No lost obligation**, whatever the order of the steps and whoever is killed, if the generation on
record has no blank or line feed in it. (The ids that `begin_generation` mints are `TagOk`.) -/
theorem appends_lose_nothing (may : Prim → Bool) (w : World) (htag : ∀ g, w.disk.current = some g → TagOk g)
    (calls : List (List Str)) (es : List (Event Fault Unit)) : NothingLost calls w (runAppends may es w calls) := by
  obtain ⟨hgrown, hrec⟩ := grown_runAppends may calls htag es
  refine ⟨?_, hgrown.keeps, fun i names hi hok => ?_, hgrown.adds, fun hnone => ⟨?_, fun i r hr hok => ?_⟩⟩
  · rcases hgrown.text with hsame | ⟨_, s, hs, htext⟩
    · exact Or.inl hsame
    · refine Or.inr ⟨s, hs, htext, ?_⟩
      rw [Disk.entries, htext, readCleanupEntries_writeCleanupEntries hs]
  · obtain ⟨g, hc, hn⟩ := hrec i _ hok rfl
    exact ⟨g, hgrown.current.symm.trans hc, hn names hi⟩
  · exact hgrown.text.resolve_right fun h => h.1 hnone
  · obtain ⟨g, hc, _⟩ := hrec i r hr hok
    rw [hgrown.current, hnone] at hc
    cases hc

end

/-- Two callers; the first is killed once it has replaced the list, the second one then gets the lock. -/
theorem appends_lose_nothing_killed :
    let calls := [["DISPLAY".toList], ["WAYLAND_DISPLAY".toList]]
    let run := fun i => Event.run i default
    NothingLost calls (underWay []) (runAppends (fun _ => false)
      [run 0, run 1, run 0, run 0, run 0, .kill 0 (), run 1, run 1, run 1, run 1, run 1] (underWay []) calls) :=
  appends_lose_nothing _ _
    (established_beginGeneration (g := randomHexId fun _ => 0) (by decide)).onRecord.tag _ _

/-- A hand-made `generation` file with a blank in it. -/
def blankGeneration : World :=
  { World.bare [] with disk := Disk.write (fun _ => none) .generation "a b\n".toList }

/-- One caller, alone: it returns `Ok`, and the line it has written is read as another entry. -/
theorem blank_generation_loses : ¬ ∀ (may : Prim → Bool) (w : World) (calls : List (List Str))
    (es : List (Event Fault Unit)), NothingLost calls w (runAppends may es w calls) := by
  intro h
  let c := runAppends (fun _ => false) (List.replicate 5 (.run 0 default)) blankGeneration [["FOO".toList]]
  obtain ⟨g, hg, hfoo⟩ := (h (fun _ => false) blankGeneration [["FOO".toList]]
    (List.replicate 5 (.run 0 default))).recorded 0 ["FOO".toList] rfl rfl
  have hcur : blankGeneration.disk.current = some "a b".toList := by decide
  obtain rfl : "a b".toList = g := Option.some.inj (hcur.symm.trans hg)
  have hlost : (⟨"a b".toList, "FOO".toList⟩ : CleanupEntry) ∉ c.shared.state.disk.entries := by decide +kernel
  exact hlost (hfoo _ List.mem_cons_self (by decide))

end Wsmr
