import Wsmr.Env.Files
import Wsmr.Error
import Wsmr.Lib.Prog

/-!
# What the session code works on (`src/session/mod.rs`, `src/sysd/dbus.rs`, `src/util/fsutil.rs`)

| here | there |
|---|---|
| `Disk` | the files under `$XDG_RUNTIME_DIR/wsmr/` that a later reader looks at |
| `ActEnv` | systemd's activation environment |
| `World.dbus`, `World.broker` | the D-Bus daemon's environment; whether that daemon is `dbus-broker` |
| `Prim` | one file system call or one D-Bus call |
| `Fault` | whether the call fails, and how far a failing bulk call got |

A file is replaced by a rename (`atomic_write_path`), so a failing write has no effect. Which
calls may fail at all is a parameter (`may`) of `handle`.
-/

namespace Wsmr

open Text Std Effects

/-! ## Files -/

inductive File where
  | generation | envPre | cleanupList | envLogin | sessionConf
  | vars (mark : Str)
  deriving DecidableEq, Repr

/-- `runtime_path`, relative to the runtime directory. -/
def File.path : File → Str
  | .generation => "generation".toList
  | .envPre => "env_pre".toList
  | .cleanupList => "env_cleanup.list".toList
  | .envLogin => "env_login".toList
  | .sessionConf => "env_session.conf".toList
  | .vars mark => "vars_".toList ++ mark

abbrev Disk := File → Option Str

def Disk.write (d : Disk) (f : File) (text : Str) : Disk := fun g => if g = f then some text else d g
def Disk.remove (d : Disk) (f : File) : Disk := fun g => if g = f then none else d g

/-- Remove the `vars_*` files whose mark `p` selects. -/
def Disk.sweep (d : Disk) (p : Str → Bool) : Disk
  | .vars mark => if p mark then none else d (.vars mark)
  | f => d f

@[simp] theorem Disk.write_self (d : Disk) (f : File) (t : Str) : d.write f t f = some t := by simp [Disk.write]
@[simp] theorem Disk.remove_self (d : Disk) (f : File) : d.remove f f = none := by simp [Disk.remove]

theorem Disk.write_ne {d : Disk} {f g : File} {t : Str} (h : g ≠ f) : d.write f t g = d g := by
  simp [Disk.write, h]

theorem Disk.remove_ne {d : Disk} {f g : File} (h : g ≠ f) : d.remove f g = d g := by
  simp [Disk.remove, h]

/-! ## The activation environment -/

/-- An environment as a map of strings; what a `KEY=VALUE` string cannot carry is not in it. -/
structure ActEnv where
  vars : Env
  wf : ∀ k v : Str, vars[k]? = some v → '=' ∉ k ∧ '\x00' ∉ v

def ActEnv.get (e : ActEnv) (k : Str) : Option Str := e.vars[k]?

instance : CoeFun ActEnv fun _ => Str → Option Str := ⟨ActEnv.get⟩

theorem ActEnv.wf_empty (k v : Str) (h : (∅ : Env)[k]? = some v) : '=' ∉ k ∧ '\x00' ∉ v := by
  rw [ExtTreeMap.getElem?_empty] at h
  cases h

theorem ActEnv.nulFree (e : ActEnv) : NulFree e.vars := fun k v h => (e.wf k v h).2

def carriable (k v : Str) : Bool := !k.contains '=' && !v.contains '\x00'

theorem carriable_iff {k v : Str} : carriable k v = true ↔ '=' ∉ k ∧ '\x00' ∉ v := by
  simp [carriable]

/-- Add bindings, overriding. -/
def ActEnv.merge (e : ActEnv) (vars : Env) : ActEnv where
  vars := e.vars ∪ vars.filter carriable
  wf k v h := by
    rw [ExtTreeMap.getElem?_union, Option.or_eq_some_iff] at h
    rcases h with h | ⟨_, h⟩
    · rw [ExtTreeMap.getElem?_filter', Option.filter_eq_some_iff] at h
      exact carriable_iff.1 h.2
    · exact e.wf k v h

def ActEnv.erase (e : ActEnv) (names : List Str) : ActEnv where
  vars := TreeMap.eraseAll e.vars names
  wf k v h := by
    by_cases hk : k ∈ names
    · rw [TreeMap.getElem?_eraseAll_of_mem (Or.inl hk)] at h
      cases h
    · rw [TreeMap.getElem?_eraseAll_of_not_mem hk] at h
      exact e.wf k v h

theorem ActEnv.merge_apply (e : ActEnv) {vars : Env} {k : Str}
    (h : ∀ v, vars[k]? = some v → '=' ∉ k ∧ '\x00' ∉ v) : e.merge vars k = vars[k]?.or (e k) := by
  show (e.vars ∪ vars.filter carriable)[k]? = vars[k]?.or e.vars[k]?
  rw [ExtTreeMap.getElem?_union, ExtTreeMap.getElem?_filter']
  cases hv : vars[k]? with
  | none => rfl
  | some v => simp [Option.filter, carriable_iff.2 (h v hv)]

theorem ActEnv.erase_apply (e : ActEnv) (names : List Str) (k : Str) :
    e.erase names k = if k ∈ names then none else e k := by
  show (TreeMap.eraseAll e.vars names)[k]? = if k ∈ names then none else e.vars[k]?
  split
  · exact TreeMap.getElem?_eraseAll_of_mem (Or.inl ‹_›)
  · exact TreeMap.getElem?_eraseAll_of_not_mem ‹_›

/-- The `KEY=VALUE` strings of a map. -/
def assignments (vars : Env) : List Str := vars.toList.map assignment

def ofAssignments (as : List Str) : Env := ExtTreeMap.ofList (as.filterMap (splitOnce '='))

/-- A bus string has no NUL, and systemd wants a `=`. -/
def validAssignment (a : Str) : Bool := a.contains '=' && !a.contains '\x00'

theorem ofAssignments_assignments {vars : Env} (h : ∀ k v : Str, vars[k]? = some v → '=' ∉ k) :
    ofAssignments (assignments vars) = vars := by
  have hrec : ∀ p ∈ vars.toList, (splitOnce '=' ∘ assignment) p = some p := by
    rintro ⟨k, v⟩ hp
    exact splitOnce_append v (h k v (ExtTreeMap.mem_toList_iff_getElem?_eq_some.1 hp))
  unfold ofAssignments assignments
  rw [List.filterMap_map, List.filterMap_congr hrec, List.filterMap_some]
  apply ExtTreeMap.ext_getElem?
  intro k
  simpa using TreeMap.getElem?_ofList_filter vars (fun _ => true) k

/-! ## Operations -/

inductive Prim where
  | lock | unlock
  | exists (f : File)
  | read (f : File)
  | write (f : File) (text : Str)
  | remove (f : File)
  | sweepVars
  | environment
  | setEnvironment (assignments : List Str)
  | unsetEnvironment (names : List Str)
  | isDbusBroker
  | updateActivationEnvironment (env : Env)

/-- What a call that succeeds returns. -/
abbrev Prim.Value : Prim → Type
  | .exists _ => Bool
  | .read _ => Option Str
  | .environment => List Str
  | .isDbusBroker => Bool
  | _ => Unit

/-- The answer to a call; what exactly went wrong is not told apart. -/
abbrev Answer (α : Type) := Except Unit α

abbrev prims : Sig := ⟨Prim, fun o => Answer o.Value⟩

structure World where
  systemd : ActEnv
  dbus : Env
  broker : Bool
  disk : Disk

/-- A world without session files, on `dbus-broker`. -/
def World.bare (vars : List (Str × Str)) : World where
  systemd := ActEnv.merge ⟨∅, ActEnv.wf_empty⟩ (ExtTreeMap.ofList vars)
  dbus := ∅
  broker := true
  disk := fun _ => none

namespace Prim

/-- Calls whose arguments are turned down. -/
def refused : Prim → Bool
  | .setEnvironment as => !as.all validAssignment
  | _ => false

/-- Unlocking and looking whether a file is there do not fail. -/
def fallible : Prim → Bool
  | .unlock | .exists _ => false
  | _ => true

def value : (o : Prim) → World → o.Value
  | .exists p, w => (w.disk p).isSome
  | .read p, w => w.disk p
  | .environment, w => assignments w.systemd.vars
  | .isDbusBroker, w => w.broker
  | .lock, _ | .unlock, _ | .write _ _, _ | .remove _, _ | .sweepVars, _ | .setEnvironment _, _
  | .unsetEnvironment _, _ | .updateActivationEnvironment _, _ => ()

def effect : Prim → World → World
  | .write p t, w => { w with disk := w.disk.write p t }
  | .remove p, w => { w with disk := w.disk.remove p }
  | .sweepVars, w => { w with disk := w.disk.sweep fun _ => true }
  | .setEnvironment as, w => { w with systemd := w.systemd.merge (ofAssignments as) }
  | .unsetEnvironment names, w => { w with systemd := w.systemd.erase names }
  | .updateActivationEnvironment env, w => { w with dbus := w.dbus.insertMany env.toList }
  | .lock, w | .unlock, w | .exists _, w | .read _, w | .environment, w | .isDbusBroker, w => w

/-- The effect of a failing call that had dealt with the names in `reaches`. -/
def effectUpTo (reaches : Str → Bool) : Prim → World → World
  | .sweepVars, w => { w with disk := w.disk.sweep reaches }
  | .setEnvironment as, w =>
    if refused (.setEnvironment as) then w
    else { w with systemd := w.systemd.merge ((ofAssignments as).filter fun k _ => reaches k) }
  | .unsetEnvironment names, w => { w with systemd := w.systemd.erase (names.filter reaches) }
  | _, w => w

end Prim

structure Fault where
  fails : Bool
  /-- The names a failing bulk call had dealt with. -/
  reaches : Str → Bool

instance : Inhabited Fault := ⟨⟨false, fun _ => true⟩⟩

def handle (may : Prim → Bool) (f : Fault) (o : Prim) (w : World) : Answer o.Value × World :=
  if o.refused || (may o && o.fallible && f.fails) then (.error (), o.effectUpTo f.reaches w)
  else (.ok (o.value w), o.effect w)

end Wsmr
