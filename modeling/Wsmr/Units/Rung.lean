import Wsmr.Error
import Wsmr.Lib.Prog
import Wsmr.Lib.UndoLog

/-!
# A rung directory (`src/util/fsutil.rs`, `std::fs`)

Unit files live in one directory; `Rung.files` gives the content at each path relative to it. A file is
replaced by a rename (`atomic_write`), so a write or removal that fails has no effect; the temporary
file on the way to the rename, and directories, are not among the files of the model. What wsmr has
changed is kept beside them (`Rung.log`); no code reads that.
-/

namespace Wsmr

open Text Effects

inductive FileData where
  | text (s : Str)
  /-- Cannot be read as text: no permission, not UTF-8, not a file. -/
  | unreadable
  deriving DecidableEq, Repr

/-- A write, or a removal (`none`), that has worked; `restoring` in a rollback. -/
structure FsChange where
  restoring : Bool
  relname : Str
  content : Option Str

structure Rung where
  /-- The path of the directory. -/
  path : Str
  files : Str → Option FileData
  /-- The changes made by wsmr, newest first. -/
  log : List FsChange

def joinPath (dir relname : Str) : Str := dir ++ '/' :: relname

/-- `read_to_string(..).ok()` -/
def textOf : Option FileData → Option Str
  | some (.text s) => some s
  | _ => none

namespace Rung

def Readable (dir : Rung) (relname : Str) : Prop := dir.files relname ≠ some .unreadable

/-- `read_to_string`; a missing file is `none`. -/
def readToString (dir : Rung) (relname : Str) : Except Error (Option Str) :=
  if dir.files relname = some .unreadable then .error (.io (joinPath dir.path relname))
  else .ok (textOf (dir.files relname))

theorem readToString_eq_ok {dir : Rung} {relname : Str} {e : Option Str} :
    dir.readToString relname = .ok e ↔ dir.Readable relname ∧ e = textOf (dir.files relname) := by
  unfold readToString Readable
  split
  · rename_i h
    simp [h]
  · rename_i h
    simp [h, eq_comm]

/-- A file that can be read, or is missing, is given back by its text. -/
theorem map_textOf {dir : Rung} {relname : Str} (h : dir.Readable relname) :
    (textOf (dir.files relname)).map .text = dir.files relname := by
  unfold Readable at h
  cases hf : dir.files relname with
  | none => rfl
  | some data =>
    cases data with
    | text s => rfl
    | unreadable => exact absurd hf h

/-- The file is replaced, or removed (`none`). -/
def put (dir : Rung) (restoring : Bool) (relname : Str) (content : Option Str) : Rung where
  path := dir.path
  files := Function.update dir.files relname (content.map .text)
  log := ⟨restoring, relname, content⟩ :: dir.log

@[simp] theorem files_put_self (dir : Rung) (restoring : Bool) (relname : Str) (content : Option Str) :
    (dir.put restoring relname content).files relname = content.map .text := by
  rw [put]
  exact Function.update_self _ _ _

theorem files_put_of_ne {dir : Rung} {restoring : Bool} {relname q : Str} {content : Option Str} (h : q ≠ relname) :
    (dir.put restoring relname content).files q = dir.files q := by
  rw [put]
  exact Function.update_of_ne h _ _

theorem readable_put {dir : Rung} {restoring : Bool} {relname q : Str} {content : Option Str} (h : dir.Readable q) :
    (dir.put restoring relname content).Readable q := by
  unfold Readable
  by_cases hq : q = relname
  · subst hq
    rw [files_put_self]
    cases content <;> simp
  · rw [files_put_of_ne hq]
    exact h

/-- Several changes, in order. -/
def putAll (dir : Rung) (restoring : Bool) (cs : List (Str × Option Str)) : Rung :=
  cs.foldl (fun dir c => dir.put restoring c.1 c.2) dir

/-- Texts as contents of files. -/
def toChanges (cs : List (Str × Option Str)) : List (UndoLog.Change Str FileData) :=
  cs.map fun c => (c.1, c.2.map .text)

theorem keys_toChanges (cs : List (Str × Option Str)) : (toChanges cs).map Prod.fst = cs.map Prod.fst := by
  simp [toChanges, Function.comp_def]

theorem files_putAll {restoring : Bool} : ∀ {cs : List (Str × Option Str)} {dir : Rung},
    (dir.putAll restoring cs).files = UndoLog.apply (toChanges cs) dir.files
  | [], _ => rfl
  | _ :: cs, _ => @files_putAll _ cs _

theorem readable_putAll {restoring : Bool} {q : Str} : ∀ {cs : List (Str × Option Str)} {dir : Rung},
    dir.Readable q → (dir.putAll restoring cs).Readable q
  | [], _, h => h
  | _ :: cs, _, h => @readable_putAll _ _ cs _ (readable_put h)

theorem log_putAll {restoring : Bool} : ∀ {cs : List (Str × Option Str)} {dir : Rung},
    (dir.putAll restoring cs).log = (cs.map fun c => ⟨restoring, c.1, c.2⟩).reverse ++ dir.log
  | [], _ => rfl
  | c :: cs, dir => by
    have ih := @log_putAll restoring cs (dir.put restoring c.1 c.2)
    rw [putAll, List.foldl_cons, ← putAll, ih]
    simp [put]

end Rung

/-! ## Operations -/

inductive FsOp where
  | read (relname : Str)
  /-- `atomic_write`, or `remove_file`; `restoring` in a rollback. -/
  | put (restoring : Bool) (relname : Str) (content : Option Str)

/-- A change answers whether it has worked; removing a file that is not there has. -/
abbrev FsOp.Value : FsOp → Type
  | .read _ => Option Str
  | .put _ _ _ => Bool

abbrev fsOps : Sig := ⟨FsOp, FsOp.Value⟩

/-- The files a batch fails to change, and those a rollback fails to restore. -/
structure FsFaults where
  change : Str → Bool
  restore : Str → Bool

def fsHandle (faults : FsFaults) : (o : FsOp) → Rung → o.Value × Rung
  | .read relname, dir => (textOf (dir.files relname), dir)
  | .put restoring relname content, dir =>
    if bif restoring then faults.restore relname else faults.change relname then (false, dir)
    else (true, dir.put restoring relname content)

/-- A program of the original that works on a rung directory. -/
abbrev FsIo (α : Type) := ExceptT Error (Prog fsOps) α

def runFs {α : Type} (faults : FsFaults) (p : FsIo α) (dir : Rung) : Except Error α × Rung :=
  let r := Prog.run (S := fsOps) (fun _ : Unit => fsHandle faults) p [] dir
  (r.1, r.2.2)

/-- What comes after a program that has returned. -/
def andThen {α β : Type} (r : Except Error α × Rung) (f : α → Rung → Except Error β × Rung) :
    Except Error β × Rung :=
  match r with
  | (.ok a, dir) => f a dir
  | (.error e, dir) => (.error e, dir)

theorem runFs_bind {α β : Type} (faults : FsFaults) (p : FsIo α) (f : α → FsIo β) (dir : Rung) :
    runFs faults (p >>= f) dir = andThen (runFs faults p dir) fun a => runFs faults (f a) := by
  have htail : ∀ {γ : Type} (q : Prog fsOps γ) (dir : Rung),
      (Prog.run (S := fsOps) (fun _ : Unit => fsHandle faults) q [] dir).2.1 = [] := by
    intro γ q
    induction q with
    | ret a => intro dir; rfl
    | op o k ih => intro dir; exact ih _ _
  rw [Prog.ebind_eq]
  simp only [runFs]
  rw [Prog.run_bind, htail]
  cases (Prog.run (S := fsOps) (fun _ : Unit => fsHandle faults) p [] dir).1 <;> rfl

end Wsmr
