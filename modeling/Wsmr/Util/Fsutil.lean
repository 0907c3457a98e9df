import Wsmr.Comp.Resolve
import Wsmr.Lib.Code
import Wsmr.Lib.Refine
import Wsmr.Units.Interrupted

/-!
# Atomic writes (`src/util/fsutil.rs`)

A file system in which names stand for inodes, and every byte is written by itself. `atomic_write` makes a
temporary file next to the destination, writes and syncs it, and renames it; any of that can fail, and the
process can be killed in between. `atomicWrites_refine` says that any number of processes that do this at
the same time work as if every write was one step, so that `Rung` is a fair picture of a directory. It rests
on the names of the temporary files, which tell the process (`eq_of_isTemp`).
-/

namespace Wsmr

open Text Effects

/-! ## Files -/

structure FileSystem where
  /-- The inode that goes by a name. -/
  names : Str → Option Nat
  data : Nat → List UInt8
  /-- The inode has been written to since it was last synced. -/
  dirty : Nat → Bool
  next : Nat

def fileData (bytes : List UInt8) : FileData :=
  match decodeUtf8 bytes with
  | some s => .text s
  | none => .unreadable

def FileSystem.file (d : FileSystem) (path : Str) : Option FileData :=
  (d.names path).map fun ino => fileData (d.data ino)

inductive DiskOp where
  | createDirAll (path : Str)
  | now
  /-- `File::create`: an inode of that name is emptied. -/
  | create (path : Str)
  | write (fd : Nat) (byte : UInt8)
  | syncAll (fd : Nat)
  | rename (src dst : Str)
  | removeFile (path : Str)
  | readToString (path : Str)

/-- Whether it has worked, for the most part; removing a file that is not there has. -/
abbrev DiskOp.Value : DiskOp → Type
  | .now => Nat
  | .create _ => Option Nat
  | .readToString _ => Option Str
  | _ => Bool

abbrev diskOps : Sig := ⟨DiskOp, DiskOp.Value⟩

structure DiskChoice where
  fails : Bool
  time : Nat

def FileSystem.touch (d : FileSystem) (ino : Nat) (bytes : List UInt8) (dirty : Bool) : FileSystem :=
  { d with data := Function.update d.data ino bytes, dirty := Function.update d.dirty ino dirty }

def FileSystem.link (d : FileSystem) (path : Str) (ino : Option Nat) : FileSystem :=
  { d with names := Function.update d.names path ino }

def diskHandle (c : DiskChoice) : (o : DiskOp) → FileSystem → o.Value × FileSystem
  | .createDirAll _, d => (!c.fails, d)
  | .now, d => (c.time, d)
  | .create path, d =>
    if c.fails then (none, d)
    else match d.names path with
      | some ino => (some ino, d.touch ino [] true)
      | none => (some d.next, { (d.touch d.next [] true).link path (some d.next) with next := d.next + 1 })
  | .write fd byte, d => if c.fails then (false, d) else (true, d.touch fd (d.data fd ++ [byte]) true)
  | .syncAll fd, d => if c.fails then (false, d) else (true, d.touch fd (d.data fd) false)
  | .rename src dst, d =>
    if c.fails then (false, d)
    else match d.names src with
      | some ino => (true, (d.link src none).link dst (some ino))
      | none => (false, d)
  | .removeFile path, d => if c.fails then (false, d) else (true, d.link path none)
  | .readToString path, d => (textOf (d.file path), d)

/-! ## The code -/

/-- A program of the original that works on files. -/
abbrev DiskIo (α : Type) := ExceptT Error (Prog diskOps) α

def createDirAll (path : Str) : DiskIo Unit :=
  Prog.op (S := diskOps) (.createDirAll path) fun ok => .ret (if ok then .ok () else .error (.io path))

/-- `SystemTime::now()` -/
def now : DiskIo Nat := Prog.op (S := diskOps) .now fun nanos => .ret (.ok nanos)

def createFile (path : Str) : DiskIo Nat :=
  Prog.op (S := diskOps) (.create path) fun fd => .ret (fd.elim (.error (.io path)) .ok)

/-- `write_all` -/
def writeAll (path : Str) (fd : Nat) : List UInt8 → DiskIo Unit
  | [] => pure ()
  | byte :: bytes => do
    Prog.op (S := diskOps) (.write fd byte) fun ok => .ret (if ok then .ok () else .error (.io path))
    writeAll path fd bytes

def syncAll (path : Str) (fd : Nat) : DiskIo Unit :=
  Prog.op (S := diskOps) (.syncAll fd) fun ok => .ret (if ok then .ok () else .error (.io path))

/-- `Path::parent`, of a path with a directory. -/
def parentDir (path : Str) : Str := ((path.reverse.dropWhile (· ≠ '/')).drop 1).reverse

def tempPath (dest : Str) (pid nanos : Nat) : Str :=
  joinPath (parentDir dest)
    ('.' :: fileBasename dest ++ ".wsmr-tmp.".toList ++ decimal pid ++ '.' :: decimal nanos)

def writeTemp (tmp content : Str) : DiskIo Unit := do
  let fd ← createFile tmp
  writeAll tmp fd (utf8 content)
  syncAll tmp fd

/-- Remove the temporary file, and return the error. -/
def cleanUp (tmp : Str) (e : Error) : DiskIo Unit :=
  Prog.op (S := diskOps) (.removeFile tmp) fun _ => .ret (.error e)

def renameTemp (tmp dest : Str) : DiskIo Unit :=
  Prog.op (S := diskOps) (.rename tmp dest) fun ok => if ok then .ret (.ok ()) else cleanUp tmp (.io dest)

def atomicWrite (pid : Nat) (dir relname content : Str) : DiskIo Unit := do
  let dest := joinPath dir relname
  createDirAll (parentDir dest)
  let nanos ← now
  let tmp := tempPath dest pid nanos
  tryCatch (writeTemp tmp content) (cleanUp tmp)
  renameTemp tmp dest

/-- The operations of `Rung`, carried out by process `pid`. -/
def runOp (pid : Nat) (dir : Str) : (o : FsOp) → Prog diskOps o.Value
  | .read relname => .op (.readToString (joinPath dir relname)) .ret
  | .put _ relname (some content) => Prog.bind (S := diskOps) (atomicWrite pid dir relname content) fun r => .ret r.isOk
  | .put _ relname none => .op (.removeFile (joinPath dir relname)) .ret

def onDisk {α : Type} (pid : Nat) (dir : Str) : Prog fsOps α → Prog diskOps α
  | .ret a => .ret a
  | .op o k => (runOp pid dir o).bind fun r => onDisk pid dir (k r)

/-! ## Names of temporary files -/

def IsTemp (pid : Nat) (path : Str) : Prop := ∃ dest nanos, path = tempPath dest pid nanos

/-- Not the name of a temporary file. -/
def Plain (path : Str) : Prop := ∀ pid, ¬ IsTemp pid path

theorem append_cons_inj {c : Char} {a b s t : Str} (hs : c ∉ s) (ht : c ∉ t) (h : a ++ c :: s = b ++ c :: t) :
    a = b ∧ s = t := by
  have hrev : s.reverse ++ c :: a.reverse = t.reverse ++ c :: b.reverse := by
    simpa using congrArg List.reverse h
  have hs : c ∉ s.reverse := by simpa using hs
  have ht : c ∉ t.reverse := by simpa using ht
  have hsplit := splitOnce_append a.reverse hs
  rw [hrev, splitOnce_append b.reverse ht] at hsplit
  obtain ⟨hst, hab⟩ := Prod.mk.inj (Option.some.inj hsplit)
  exact ⟨List.reverse_injective hab.symm, List.reverse_injective hst.symm⟩

theorem decimal_injective : Function.Injective decimal := fun n m h => by
  have hn := @Nat.ofDigitChars_ten_toDigits n
  rw [show Nat.toDigits 10 n = Nat.toDigits 10 m from h, Nat.ofDigitChars_ten_toDigits] at hn
  exact hn.symm

theorem tempPath_eq (dest : Str) (pid nanos : Nat) : tempPath dest pid nanos =
    (joinPath (parentDir dest) ('.' :: fileBasename dest ++ ".wsmr-tmp".toList) ++ '.' :: decimal pid) ++
      '.' :: decimal nanos := by
  have hmark : ".wsmr-tmp.".toList = ".wsmr-tmp".toList ++ ['.'] := rfl
  simp [tempPath, joinPath, hmark]

/-- **The name of a temporary file tells the process.** -/
theorem eq_of_isTemp {pid pid' : Nat} {path : Str} (h : IsTemp pid path) (h' : IsTemp pid' path) : pid = pid' := by
  obtain ⟨dest, nanos, rfl⟩ := h
  obtain ⟨dest', nanos', h⟩ := h'
  rw [tempPath_eq, tempPath_eq] at h
  have hdot : ∀ n, '.' ∉ decimal n := not_mem_decimal (by decide)
  obtain ⟨h, -⟩ := append_cons_inj (hdot nanos) (hdot nanos') h
  obtain ⟨-, h⟩ := append_cons_inj (hdot pid) (hdot pid') h
  exact decimal_injective h

/-- As the names of all files do that are written. -/
def endsPlain (path : Str) : Bool := path.getLast?.any fun c => !c.isDigit

theorem endsPlain_append {s : Str} (path : Str) (h : endsPlain s = true) : endsPlain (path ++ s) = true := by
  have hne : s ≠ [] := by
    rintro rfl
    cases h
  unfold endsPlain
  rw [List.getLast?_append_of_ne_nil _ hne]
  exact h

/-- What does not end in a digit is no temporary file. -/
theorem plain_of_endsPlain {path : Str} (h : endsPlain path = true) : Plain path := by
  rintro pid ⟨dest, nanos, rfl⟩
  have hne : decimal nanos ≠ [] := Nat.toDigits_ne_nil
  rw [endsPlain, tempPath_eq, List.getLast?_append_of_ne_nil _ (by simp), List.getLast?_cons,
    List.getLast?_eq_some_getLast hne] at h
  have hdigit : ((decimal nanos).getLast hne).isDigit = false := by simpa using h
  exact not_mem_decimal hdigit nanos (List.getLast_mem hne)

theorem plain_joinPath {dir relname : Str} (h : endsPlain relname = true) : Plain (joinPath dir relname) :=
  plain_of_endsPlain (endsPlain_append dir (endsPlain_append ['/'] h))

theorem fileData_utf8 (s : Str) : fileData (utf8 s) = .text s := by
  unfold fileData
  rw [decodeUtf8_utf8]

/-! ## One operation -/

/-- `old` are the inodes that had not been synced when all began. -/
structure Agrees (dir : Str) (old : Nat → Bool) (s : FileSystem) (t : Rung) : Prop where
  path : t.path = dir
  files : ∀ relname, Plain (joinPath dir relname) → t.files relname = s.file (joinPath dir relname)
  /-- A temporary file goes by no other name. -/
  links : ∀ pid n ino, IsTemp pid n → s.names n = some ino → ∀ n', s.names n' = some ino → n' = n
  used : ∀ n ino, s.names n = some ino → ino < s.next
  synced : ∀ n ino, Plain n → s.names n = some ino → s.dirty ino = true → old ino = true

/-- What a step of process `pid` does not touch: the temporary files of the others. -/
def Spares (pid : Nat) (s s' : FileSystem) : Prop :=
  ∀ pid', pid' ≠ pid → ∀ n, IsTemp pid' n → s'.names n = s.names n ∧
    ∀ ino, s.names n = some ino → s'.data ino = s.data ino ∧ s'.dirty ino = s.dirty ino

section
variable {dir : Str} {old : Nat → Bool} {s : FileSystem} {t : Rung} {pid : Nat}

theorem spares_refl : Spares pid s s := fun _ _ _ _ => ⟨rfl, fun _ _ => ⟨rfl, rfl⟩⟩

/-- The process writes to its temporary file, or syncs it. -/
theorem Agrees.touch (h : Agrees dir old s t) {tmp : Str} {ino : Nat} (ht : IsTemp pid tmp)
    (hl : s.names tmp = some ino) (bytes : List UInt8) (dirty : Bool) :
    Agrees dir old (s.touch ino bytes dirty) t ∧ Spares pid s (s.touch ino bytes dirty) := by
  have hother : ∀ n ino', n ≠ tmp → s.names n = some ino' → ino' ≠ ino := fun n ino' hne hn he =>
    hne (h.links pid tmp ino ht hl n (he ▸ hn))
  refine ⟨⟨h.path, fun q hq => ?_, h.links, h.used, fun n ino' hn hl' => ?_⟩,
    fun pid' hne n hn => ⟨rfl, fun ino' hl' => ?_⟩⟩
  · rw [h.files q hq]
    have hne : joinPath dir q ≠ tmp := fun he => hq pid (he ▸ ht)
    unfold FileSystem.file FileSystem.touch
    dsimp only
    cases hn : s.names (joinPath dir q) with
    | none => rfl
    | some ino' =>
      simp only [Option.map_some]
      rw [Function.update_of_ne (hother _ _ hne hn)]
  · have hne : n ≠ tmp := fun he => hn pid (he ▸ ht)
    simp only [FileSystem.touch]
    rw [Function.update_of_ne (hother n ino' hne hl')]
    exact h.synced n ino' hn hl'
  · have hname : n ≠ tmp := fun he => hne (eq_of_isTemp hn (he ▸ ht))
    simp only [FileSystem.touch]
    rw [Function.update_of_ne (hother n ino' hname hl'), Function.update_of_ne (hother n ino' hname hl')]
    exact ⟨rfl, rfl⟩

/-- The process makes its temporary file. -/
theorem Agrees.create (h : Agrees dir old s t) {tmp : Str} (ht : IsTemp pid tmp) :
    Agrees dir old { (s.touch s.next [] true).link tmp (some s.next) with next := s.next + 1 } t ∧
      Spares pid s { (s.touch s.next [] true).link tmp (some s.next) with next := s.next + 1 } := by
  have hold : ∀ n ino, s.names n = some ino → ino ≠ s.next := fun n ino hn => (h.used n ino hn).ne
  refine ⟨⟨h.path, fun q hq => ?_, fun pid' n ino hn hl n' hl' => ?_, fun n ino hl => ?_, fun n ino hn hl => ?_⟩,
    fun pid' hne n hn => ?_⟩
  · rw [h.files q hq]
    have hne : joinPath dir q ≠ tmp := fun he => hq pid (he ▸ ht)
    unfold FileSystem.file FileSystem.touch FileSystem.link
    dsimp only
    rw [Function.update_of_ne hne]
    cases hn : s.names (joinPath dir q) with
    | none => rfl
    | some ino =>
      simp only [Option.map_some]
      rw [Function.update_of_ne (hold _ _ hn)]
  · simp only [FileSystem.touch, FileSystem.link, Function.update_apply] at hl hl'
    split at hl
    · rename_i he
      obtain rfl := Option.some.inj hl
      split at hl'
      · rename_i he'
        rw [he, he']
      · exact absurd rfl (hold n' _ hl')
    · split at hl'
      · obtain rfl := Option.some.inj hl'
        exact absurd rfl (hold n _ hl)
      · exact h.links pid' n ino hn hl n' hl'
  · simp only [FileSystem.touch, FileSystem.link, Function.update_apply] at hl
    split at hl
    · obtain rfl := Option.some.inj hl
      exact Nat.lt_succ_self _
    · exact Nat.lt_succ_of_lt (h.used n ino hl)
  · have hne : n ≠ tmp := fun he => hn pid (he ▸ ht)
    simp only [FileSystem.touch, FileSystem.link] at hl ⊢
    rw [Function.update_of_ne hne] at hl
    rw [Function.update_of_ne (hold n ino hl)]
    exact h.synced n ino hn hl
  · have hname : n ≠ tmp := fun he => hne (eq_of_isTemp hn (he ▸ ht))
    simp only [FileSystem.touch, FileSystem.link]
    rw [Function.update_of_ne hname]
    refine ⟨rfl, fun ino hl => ?_⟩
    rw [Function.update_of_ne (hold n ino hl), Function.update_of_ne (hold n ino hl)]
    exact ⟨rfl, rfl⟩

/-- The process removes its temporary file. -/
theorem Agrees.unlink (h : Agrees dir old s t) {tmp : Str} (ht : IsTemp pid tmp) :
    Agrees dir old (s.link tmp none) t ∧ Spares pid s (s.link tmp none) := by
  have hsome : ∀ {n ino}, Function.update s.names tmp none n = some ino → s.names n = some ino := fun {n ino} hl => by
    rw [Function.update_apply] at hl
    split at hl
    · cases hl
    · exact hl
  refine ⟨⟨h.path, fun q hq => ?_, fun pid' n ino hn hl n' hl' => h.links pid' n ino hn (hsome hl) n' (hsome hl'),
    fun n ino hl => h.used n ino (hsome hl), fun n ino hn hl => h.synced n ino hn (hsome hl)⟩, fun pid' hne n hn => ?_⟩
  · rw [h.files q hq]
    have hne : joinPath dir q ≠ tmp := fun he => hq pid (he ▸ ht)
    unfold FileSystem.file FileSystem.link
    dsimp only
    rw [Function.update_of_ne hne]
  · have hname : n ≠ tmp := fun he => hne (eq_of_isTemp hn (he ▸ ht))
    exact ⟨Function.update_of_ne hname _ _, fun _ _ => ⟨rfl, rfl⟩⟩

theorem joinPath_inj {p q : Str} : joinPath dir p = joinPath dir q ↔ p = q := by simp [joinPath]

/-- A file is removed. -/
theorem Agrees.remove (h : Agrees dir old s t) {relname : Str} (restoring : Bool)
    (hp : Plain (joinPath dir relname)) : Agrees dir old (s.link (joinPath dir relname) none)
      (t.put restoring relname none) ∧ Spares pid s (s.link (joinPath dir relname) none) := by
  have hsome : ∀ {n ino}, (s.link (joinPath dir relname) none).names n = some ino → s.names n = some ino := by
    intro n ino hl
    simp only [FileSystem.link, Function.update_apply] at hl
    split at hl
    · cases hl
    · exact hl
  refine ⟨⟨h.path, fun q hq => ?_, fun pid' n ino hn hl n' hl' => h.links pid' n ino hn (hsome hl) n' (hsome hl'),
    fun n ino hl => h.used n ino (hsome hl), fun n ino hn hl => h.synced n ino hn (hsome hl)⟩, fun pid' hne n hn => ?_⟩
  · by_cases he : q = relname
    · subst he
      rw [Rung.files_put_self]
      simp [FileSystem.file, FileSystem.link]
    · rw [Rung.files_put_of_ne he, h.files q hq]
      have hne : joinPath dir q ≠ joinPath dir relname := fun hj => he (joinPath_inj.1 hj)
      unfold FileSystem.file FileSystem.link
      dsimp only
      rw [Function.update_of_ne hne]
  · have hname : n ≠ joinPath dir relname := fun he => hp pid' (he ▸ hn)
    exact ⟨Function.update_of_ne hname _ _, fun _ _ => ⟨rfl, rfl⟩⟩

/-- The temporary file is renamed to the destination. -/
theorem Agrees.rename (h : Agrees dir old s t) {tmp relname content : Str} {ino : Nat} (restoring : Bool)
    (ht : IsTemp pid tmp) (hp : Plain (joinPath dir relname)) (hl : s.names tmp = some ino)
    (hdata : s.data ino = utf8 content) (hclean : s.dirty ino = false) :
    Agrees dir old ((s.link tmp none).link (joinPath dir relname) (some ino))
      (t.put restoring relname (some content)) ∧
      Spares pid s ((s.link tmp none).link (joinPath dir relname) (some ino)) := by
  have hcases : ∀ {n x}, ((s.link tmp none).link (joinPath dir relname) (some ino)).names n = some x →
      n = joinPath dir relname ∧ x = ino ∨ n ≠ joinPath dir relname ∧ n ≠ tmp ∧ s.names n = some x := by
    intro n x hx
    simp only [FileSystem.link, Function.update_apply] at hx
    split at hx
    · rename_i he
      exact Or.inl ⟨he, (Option.some.inj hx).symm⟩
    · rename_i hd
      split at hx
      · cases hx
      · rename_i hne
        exact Or.inr ⟨hd, hne, hx⟩
  refine ⟨⟨h.path, fun q hq => ?_, fun pid' n x hn hx n' hx' => ?_, fun n x hx => ?_, fun n x hn hx hdirty => ?_⟩,
    fun pid' hne n hn => ?_⟩
  · have htmp : joinPath dir q ≠ tmp := fun he => hq pid (he ▸ ht)
    by_cases he : q = relname
    · subst he
      rw [Rung.files_put_self]
      simp [FileSystem.file, FileSystem.link, hdata, fileData_utf8]
    · rw [Rung.files_put_of_ne he, h.files q hq]
      have hne : joinPath dir q ≠ joinPath dir relname := fun hj => he (joinPath_inj.1 hj)
      unfold FileSystem.file FileSystem.link
      dsimp only
      rw [Function.update_of_ne hne, Function.update_of_ne htmp]
  · rcases hcases hx with ⟨rfl, -⟩ | ⟨-, hntmp, hold⟩
    · exact absurd hn (hp pid')
    · rcases hcases hx' with ⟨-, rfl⟩ | ⟨-, -, hold'⟩
      · exact absurd (h.links pid tmp _ ht hl n hold) hntmp
      · exact h.links pid' n x hn hold n' hold'
  · rcases hcases hx with ⟨-, rfl⟩ | ⟨-, -, hold⟩
    · exact h.used tmp x hl
    · exact h.used n x hold
  · rcases hcases hx with ⟨-, rfl⟩ | ⟨-, -, hold⟩
    · exact absurd (hclean.symm.trans hdirty) Bool.false_ne_true
    · exact h.synced n x hn hold hdirty
  · have hntmp : n ≠ tmp := fun he => hne (eq_of_isTemp hn (he ▸ ht))
    have hndest : n ≠ joinPath dir relname := fun he => hp pid' (he ▸ hn)
    have hname :
        Function.update (Function.update s.names tmp none) (joinPath dir relname) (some ino) n = s.names n := by
      rw [Function.update_of_ne hndest, Function.update_of_ne hntmp]
    exact ⟨hname, fun _ _ => ⟨rfl, rfl⟩⟩

/-! ### The steps of a write -/

/-- The rest of a write whose temporary file is being made. -/
def finishWrite (tmp dest : Str) (r : DiskIo Unit) : DiskIo Unit := do
  tryCatch r (cleanUp tmp)
  renameTemp tmp dest

def succeeds (p : DiskIo Unit) : Prog diskOps Bool := Prog.bind (S := diskOps) p fun r => .ret r.isOk

/-- What process `pid` has still to do for an operation, and what it relies on. -/
inductive Phase (pid : Nat) (dir : Str) : (o : FsOp) → Prog diskOps o.Value → FileSystem → Prop where
  | ready (o : FsOp) (s : FileSystem) : Phase pid dir o (runOp pid dir o) s
  | clock (restoring : Bool) (relname content : Str) (s : FileSystem) :
    Phase pid dir (.put restoring relname (some content))
      (succeeds do
        let nanos ← now
        finishWrite (tempPath (joinPath dir relname) pid nanos) (joinPath dir relname)
          (writeTemp (tempPath (joinPath dir relname) pid nanos) content)) s
  | opening (restoring : Bool) (relname content : Str) (s : FileSystem) {tmp : Str} (ht : IsTemp pid tmp) :
    Phase pid dir (.put restoring relname (some content))
      (succeeds (finishWrite tmp (joinPath dir relname) (writeTemp tmp content))) s
  | writing (restoring : Bool) (relname content : Str) (s : FileSystem) {tmp : Str} {fd : Nat} {rest : List UInt8}
      (ht : IsTemp pid tmp) (hl : s.names tmp = some fd) (hdata : s.data fd ++ rest = utf8 content) :
    Phase pid dir (.put restoring relname (some content))
      (succeeds (finishWrite tmp (joinPath dir relname) do
        writeAll tmp fd rest
        syncAll tmp fd)) s
  | replacing (restoring : Bool) (relname content : Str) (s : FileSystem) {tmp : Str} {fd : Nat}
      (ht : IsTemp pid tmp) (hl : s.names tmp = some fd) (hdata : s.data fd = utf8 content)
      (hclean : s.dirty fd = false) :
    Phase pid dir (.put restoring relname (some content)) (succeeds (renameTemp tmp (joinPath dir relname))) s
  | cleaning (restoring : Bool) (relname content : Str) (s : FileSystem) {tmp : Str} (e : Error) (ht : IsTemp pid tmp) :
    Phase pid dir (.put restoring relname (some content)) (succeeds (cleanUp tmp e)) s

/-- The other processes do not get in the way. -/
theorem Phase.of_spares {o : FsOp} {p : Prog diskOps o.Value} {s' : FileSystem} {pid' : Nat} (h : Phase pid dir o p s)
    (hne : pid ≠ pid') (hs : Spares pid' s s') : Phase pid dir o p s' := by
  cases h with
  | ready => exact .ready o s'
  | clock restoring relname content => exact .clock restoring relname content s'
  | opening restoring relname content _ ht => exact .opening restoring relname content s' ht
  | @writing restoring relname content _ tmp fd rest ht hl hdata =>
    obtain ⟨hname, hino⟩ := hs pid hne tmp ht
    refine .writing restoring relname content s' ht (hname.trans hl) ?_
    rw [(hino fd hl).1]
    exact hdata
  | @replacing restoring relname content _ tmp fd ht hl hdata hclean =>
    obtain ⟨hname, hino⟩ := hs pid hne tmp ht
    obtain ⟨hd, hc⟩ := hino fd hl
    exact .replacing restoring relname content s' ht (hname.trans hl) (hd.trans hdata) (hc.trans hclean)
  | cleaning restoring relname content _ e ht => exact .cleaning restoring relname content s' e ht

/-- What becomes of an operation by a step: it goes on, or it is over and was one step on the files. -/
def Moved (pid : Nat) (dir : Str) (old : Nat → Bool) (o : FsOp) (p : Prog diskOps o.Value) (s' : FileSystem)
    (t : Rung) : Prop :=
  Agrees dir old s' t ∧ Phase pid dir o p s' ∨
    ∃ faults, p = .ret (fsHandle faults o t).1 ∧ Agrees dir old s' (fsHandle faults o t).2

def FsOp.relname : FsOp → Str
  | .read relname => relname
  | .put _ relname _ => relname

/-- **One step.** -/
theorem phase_step {o : FsOp} {p : Prog diskOps o.Value} (hI : Agrees dir old s t) (hp : Phase pid dir o p s)
    (hplain : Plain (joinPath dir o.relname)) : ∃ o' k, p = .op o' k ∧ ∀ c : DiskChoice,
      Spares pid s (diskHandle c o' s).2 ∧ Moved pid dir old o (k (diskHandle c o' s).1) (diskHandle c o' s).2 t := by
  have hfault : ∀ {restoring relname content}, fsHandle ⟨fun _ => true, fun _ => true⟩
      (.put restoring relname content) t = (false, t) := by
    intro restoring relname content
    cases restoring <;> rfl
  have hworks : ∀ {restoring relname content}, fsHandle noFaults (.put restoring relname content) t =
      (true, t.put restoring relname content) := by
    intro restoring relname content
    cases restoring <;> rfl
  cases hp with
  | ready =>
    cases o with
    | read relname =>
      refine ⟨.readToString (joinPath dir relname), .ret, rfl, fun c => ⟨spares_refl, Or.inr ⟨noFaults, ?_, hI⟩⟩⟩
      simp only [diskHandle, fsHandle]
      rw [hI.files relname hplain]
    | put restoring relname content =>
      cases content with
      | none =>
        refine ⟨.removeFile (joinPath dir relname), .ret, rfl, fun c => ?_⟩
        simp only [diskHandle]
        split
        · exact ⟨spares_refl, Or.inr ⟨_, by rw [hfault], by rw [hfault]; exact hI⟩⟩
        · obtain ⟨hagrees, hspares⟩ := hI.remove restoring hplain
          exact ⟨hspares, Or.inr ⟨noFaults, by rw [hworks], by rw [hworks]; exact hagrees⟩⟩
      | some content =>
        refine ⟨.createDirAll (parentDir (joinPath dir relname)), _, rfl, fun c => ⟨spares_refl, ?_⟩⟩
        obtain ⟨fails, time⟩ := c
        cases fails with
        | true => exact Or.inr ⟨_, by rw [hfault]; rfl, by rw [hfault]; exact hI⟩
        | false => exact Or.inl ⟨hI, .clock restoring relname content s⟩
  | clock restoring relname content =>
    exact ⟨.now, _, rfl, fun c => ⟨spares_refl, Or.inl ⟨hI, .opening restoring relname content s ⟨_, _, rfl⟩⟩⟩⟩
  | @opening restoring relname content _ tmp ht =>
    refine ⟨.create tmp, _, rfl, fun c => ?_⟩
    simp only [diskHandle]
    split
    · exact ⟨spares_refl, Or.inl ⟨hI, .cleaning restoring relname content s _ ht⟩⟩
    · split
      · rename_i ino hl
        obtain ⟨hagrees, hspares⟩ := hI.touch ht hl [] true
        refine ⟨hspares, Or.inl ⟨hagrees, .writing restoring relname content _ ht hl ?_⟩⟩
        simp [FileSystem.touch]
      · obtain ⟨hagrees, hspares⟩ := hI.create ht
        refine ⟨hspares, Or.inl ⟨hagrees, .writing restoring relname content _ ht ?_ ?_⟩⟩
        · simp [FileSystem.link]
        · simp [FileSystem.link, FileSystem.touch]
  | @writing restoring relname content _ tmp fd rest ht hl hdata =>
    cases rest with
    | nil =>
      refine ⟨.syncAll fd, _, rfl, fun c => ?_⟩
      simp only [diskHandle]
      split
      · exact ⟨spares_refl, Or.inl ⟨hI, .cleaning restoring relname content s _ ht⟩⟩
      · obtain ⟨hagrees, hspares⟩ := hI.touch ht hl (s.data fd) false
        refine ⟨hspares, Or.inl ⟨hagrees, .replacing restoring relname content _ ht hl ?_ ?_⟩⟩
        · simpa [FileSystem.touch] using hdata
        · simp [FileSystem.touch]
    | cons byte rest =>
      refine ⟨.write fd byte, _, rfl, fun c => ?_⟩
      simp only [diskHandle]
      split
      · exact ⟨spares_refl, Or.inl ⟨hI, .cleaning restoring relname content s _ ht⟩⟩
      · obtain ⟨hagrees, hspares⟩ := hI.touch ht hl (s.data fd ++ [byte]) true
        refine ⟨hspares, Or.inl ⟨hagrees, .writing restoring relname content _ ht hl ?_⟩⟩
        simpa [FileSystem.touch] using hdata
  | @replacing restoring relname content _ tmp fd ht hl hdata hclean =>
    refine ⟨.rename tmp (joinPath dir relname), _, rfl, fun c => ?_⟩
    simp only [diskHandle, hl]
    split
    · exact ⟨spares_refl, Or.inl ⟨hI, .cleaning restoring relname content s _ ht⟩⟩
    · obtain ⟨hagrees, hspares⟩ := hI.rename restoring ht hplain hl hdata hclean
      exact ⟨hspares, Or.inr ⟨noFaults, by rw [hworks]; rfl, by rw [hworks]; exact hagrees⟩⟩
  | @cleaning restoring relname content _ tmp e ht =>
    refine ⟨.removeFile tmp, _, rfl, fun c => ?_⟩
    simp only [diskHandle]
    split
    · exact ⟨spares_refl, Or.inr ⟨_, by rw [hfault]; rfl, by rw [hfault]; exact hI⟩⟩
    · obtain ⟨hagrees, hspares⟩ := hI.unlink ht
      exact ⟨hspares, Or.inr ⟨_, by rw [hfault]; rfl, by rw [hfault]; exact hagrees⟩⟩

end

/-! ## Many processes -/

def diskMachine : Effects.Machine diskOps FileSystem DiskChoice Unit := .ofHandler diskHandle

def fsMachine : Effects.Machine fsOps Rung FsFaults Unit := .ofHandler fsHandle

/-- The program touches no temporary file by its name. -/
def PlainProg {α : Type} (dir : Str) (q : Prog fsOps α) : Prop :=
  Prog.Uses (S := fsOps) (fun o => Plain (joinPath dir (FsOp.relname o))) (fun _ => True) q

/-- `p` is the rest of the program `q`, as process `pid` carries it out. -/
def Rest {α : Type} (pid : Nat) (dir : Str) (p : Prog diskOps α) (q : Prog fsOps α) (s : FileSystem) : Prop :=
  PlainProg dir q ∧ match q with
    | .ret a => p = .ret a
    | .op o k => ∃ rest, Phase pid dir o rest s ∧ p = rest.bind fun r => onDisk pid dir (k r)

section
variable {α : Type} {dir : Str} {old : Nat → Bool} {s s' : FileSystem} {t : Rung} {pid pid' : Nat}

theorem rest_onDisk {q : Prog fsOps α} (h : PlainProg dir q) : Rest pid dir (onDisk pid dir q) q s := by
  cases q with
  | ret a => exact ⟨h, rfl⟩
  | op o k => exact ⟨h, runOp pid dir o, .ready o s, rfl⟩

theorem Rest.of_spares {p : Prog diskOps α} {q : Prog fsOps α} (h : Rest pid dir p q s) (hne : pid ≠ pid')
    (hs : Spares pid' s s') : Rest pid dir p q s' := by
  cases q with
  | ret a => exact h
  | op o k =>
    obtain ⟨hplain, rest, hphase, hp⟩ := h
    exact ⟨hplain, rest, hphase.of_spares hne hs, hp⟩

/-- One step of a process, and of its abstract program. -/
theorem rest_step {o : DiskOp} {k : o.Value → Prog diskOps α} {q : Prog fsOps α} (hI : Agrees dir old s t)
    (h : Rest pid dir (.op o k) q s) : (∃ o' k', q = .op o' k') ∧ ∀ (c : DiskChoice) (i : Nat),
      Spares pid s (diskHandle c o s).2 ∧
        ∃ q' t', Effects.Machine.Follows fsMachine i q t q' t' ∧ Agrees dir old (diskHandle c o s).2 t' ∧
          Rest pid dir (k (diskHandle c o s).1) q' (diskHandle c o s).2 := by
  cases q with
  | ret a =>
    have he : Prog.op (S := diskOps) o k = .ret a := h.2
    cases he
  | op o' k' =>
    obtain ⟨hplain, rest, hphase, hp⟩ := h
    refine ⟨⟨o', k', rfl⟩, fun c i => ?_⟩
    obtain ⟨o₁, k₁, rfl, hmove⟩ := phase_step hI hphase hplain.1
    cases hp
    obtain ⟨hspares, hmoved⟩ := hmove c
    refine ⟨hspares, ?_⟩
    rcases hmoved with ⟨hagrees, hphase'⟩ | ⟨faults, hret, hagrees⟩
    · exact ⟨_, t, .stay, hagrees, hplain, _, hphase', rfl⟩
    · refine ⟨k' (fsHandle faults o' t).1, (fsHandle faults o' t).2, .step faults rfl, hagrees, ?_⟩
      show Rest pid dir ((k₁ (diskHandle c o s).1).bind fun r => onDisk pid dir (k' r)) _ _
      rw [hret]
      exact rest_onDisk (hplain.2 _)

/-- A process has returned when its abstract program has. -/
theorem rest_ret {p : Prog diskOps α} {q : Prog fsOps α} (hI : Agrees dir old s t) (h : Rest pid dir p q s) (a : α) :
    p = .ret a ↔ q = .ret a := by
  cases q with
  | ret b =>
    have hp : p = .ret b := h.2
    rw [hp]
    constructor
    · rintro ⟨⟩
      rfl
    · rintro ⟨⟩
      rfl
  | op o k =>
    obtain ⟨hplain, rest, hphase, hp⟩ := h
    obtain ⟨o₁, k₁, rfl, -⟩ := phase_step hI hphase hplain.1
    rw [hp]
    constructor
    · rintro ⟨⟩
    · rintro ⟨⟩

end

/-- Processes that write atomically do the work of processes whose writes are one step. -/
theorem refines_atomicWrite {α : Type} {dir : Str} {old : Nat → Bool} {pids : Nat → Nat}
    (hpids : Function.Injective pids) :
    Effects.Machine.Refines diskMachine fsMachine (Agrees dir old)
      (fun i (p : Prog diskOps α) q s => Rest (pids i) dir p q s) where
  run {i c o k q s t r s'} hI hR hs := by
    obtain ⟨-, hmove⟩ := rest_step hI hR
    have he : diskHandle c o s = (r, s') := Option.some.inj hs
    have hnext := (hmove c i).2
    rw [he] at hnext
    exact hnext
  kill {i x o k q s t} hI hR := by
    obtain ⟨⟨o', k', hq⟩, -⟩ := rest_step hI hR
    exact ⟨o', k', (), hq, hI⟩
  run_others {i c o k q s t r s'} hI hR hs j p' q' hji h := by
    obtain ⟨-, hmove⟩ := rest_step hI hR
    have he : diskHandle c o s = (r, s') := Option.some.inj hs
    have hspares := (hmove c i).1
    rw [he] at hspares
    exact h.of_spares (fun he => hji (hpids he)) hspares
  kill_others {i x o k q s t} hI hR j p' q' hji h := h

/-- No temporary file goes by another name, and inodes are used in order. -/
structure FileSystem.Linked (s : FileSystem) : Prop where
  links : ∀ pid n ino, IsTemp pid n → s.names n = some ino → ∀ n', s.names n' = some ino → n' = n
  used : ∀ n ino, s.names n = some ino → ino < s.next

/-- The files of a directory. -/
def FileSystem.rung (s : FileSystem) (dir : Str) : Rung := ⟨dir, fun relname => s.file (joinPath dir relname), []⟩

theorem FileSystem.Linked.agrees {s : FileSystem} (h : s.Linked) (dir : Str) : Agrees dir s.dirty s (s.rung dir) :=
  ⟨rfl, fun _ _ => rfl, h.links, h.used, fun _ _ _ _ hd => hd⟩

/-- Every run of programs on disk has a run of the programs themselves that goes with it. -/
theorem exec_onDisk {α : Type} {dir : Str} {pids : Nat → Nat} {ps : List (Prog fsOps α)} {s : FileSystem}
    (hpids : Function.Injective pids) (hplain : ∀ p ∈ ps, PlainProg dir p) (hs : s.Linked)
    (es : List (Event DiskChoice Unit)) : ∃ es',
      Effects.Machine.Fit (Agrees dir s.dirty) (fun i p q s => Rest (pids i) dir p q s)
        (diskMachine.exec es ⟨s, ps.mapIdx fun i p => some (onDisk (pids i) dir p)⟩)
        (fsMachine.exec es' ⟨s.rung dir, ps.map some⟩) := by
  refine Effects.Machine.exec_refines (refines_atomicWrite hpids) es ⟨hs.agrees dir, fun i => ?_⟩
  simp only [List.getElem?_mapIdx, List.getElem?_map]
  cases hp : ps[i]? with
  | none => exact .none
  | some p => exact .some (.some (rest_onDisk (hplain p (List.mem_of_getElem? hp))))

/-- **Atomic writes.** Processes with ids of their own work in a directory, and write their files with
`atomic_write`; anything can fail, every byte is written by itself, and processes are killed. Then there is a
run of the same programs with writes that are one step, to the same files, with the same results, and with
the same processes killed. At no time is a file there by its name that has not been synced after it was
written. -/
theorem atomicWrites_refine {α : Type} {dir : Str} {pids : Nat → Nat} {ps : List (Prog fsOps α)} {s : FileSystem}
    (hpids : Function.Injective pids) (hplain : ∀ p ∈ ps, PlainProg dir p) (hs : s.Linked)
    (es : List (Event DiskChoice Unit)) : ∃ es',
      let c := diskMachine.exec es ⟨s, ps.mapIdx fun i p => some (onDisk (pids i) dir p)⟩
      let c' := fsMachine.exec es' ⟨s.rung dir, ps.map some⟩
      (∀ relname, Plain (joinPath dir relname) → c.shared.file (joinPath dir relname) = c'.shared.files relname) ∧
        (∀ n ino, Plain n → c.shared.names n = some ino → c.shared.dirty ino = true → s.dirty ino = true) ∧
        ∀ i : Nat, (c.procs[i]? = some none ↔ c'.procs[i]? = some none) ∧
          ∀ a : α, c.procs[i]? = some (some (Prog.ret a)) ↔ c'.procs[i]? = some (some (Prog.ret a)) := by
  obtain ⟨es', hI, hprocs⟩ := exec_onDisk hpids hplain hs es
  refine ⟨es', fun relname hp => (hI.files relname hp).symm, hI.synced, fun i => ?_⟩
  have hi := hprocs i
  revert hi
  generalize (diskMachine.exec es _).procs[i]? = x
  generalize (fsMachine.exec es' _).procs[i]? = y
  rintro (⟨⟨hR⟩ | _⟩ | _)
  · exact ⟨by simp, fun a => by simpa using rest_ret hI hR a⟩
  · simp
  · simp

/-! ## Generations on disk -/

section
variable {dir path : Str}

/-- `PlainProg` of a program that may return errors, with what it returns otherwise. -/
abbrev PlainIo {α : Type} (dir : Str) (Q : α → Prop) (p : FsIo α) : Prop :=
  Prog.Uses (S := fsOps) (fun o => Plain (joinPath dir (FsOp.relname o))) (fun r => ∀ a, r = .ok a → Q a) p

theorem plain_bind {α β : Type} {Q : α → Prop} {R : β → Prop} {x : FsIo α} {f : α → FsIo β} (hx : PlainIo dir Q x)
    (hf : ∀ a, Q a → PlainIo dir R (f a)) : PlainIo dir R (x >>= f) :=
  Prog.uses_ebind hx (fun a ha => hf a (ha a rfl)) fun _ _ _ => nofun

theorem plain_pure {α : Type} {Q : α → Prop} {a : α} (h : Q a) : PlainIo dir Q (pure a) := fun b hb => by
  obtain rfl := Except.ok.inj hb
  exact h

theorem plain_read {q : Str} (h : Plain (joinPath dir q)) : PlainIo dir (fun _ => True) (fsRead q) :=
  ⟨h, fun _ _ _ => trivial⟩

theorem plain_put {restoring : Bool} {q : Str} {content : Option Str} (h : Plain (joinPath dir q)) :
    PlainIo dir (fun _ => True) (fsPut restoring q content) :=
  ⟨h, fun _ _ _ => trivial⟩

theorem plain_rollback {applied : List Applied} (h : ∀ a ∈ applied, Plain (joinPath dir a.relname)) :
    PlainIo dir (fun _ => True) (rollback applied) := by
  have hloop : ∀ as : List Applied, (∀ a ∈ as, Plain (joinPath dir a.relname)) →
      PlainIo dir (fun _ => True) (forM as fun a => do
        let _ ← fsPut true a.relname a.previous
        return ⟨⟩) := by
    intro as
    induction as with
    | nil => exact fun _ _ _ => trivial
    | cons a as ih =>
      intro h
      rw [List.forall_mem_cons] at h
      rw [List.forM_cons]
      exact plain_bind (plain_bind (plain_put h.1) fun _ _ => plain_pure (Q := fun _ => True) trivial) fun _ _ => ih h.2
  exact hloop _ fun a ha => h a (List.mem_reverse.1 ha)

theorem plain_foldlM_applyStep {cs : List (Str × Option Str)} {b : Batch}
    (hcs : ∀ c ∈ cs, Plain (joinPath dir c.1)) (hb : ∀ a ∈ b.applied, Plain (joinPath dir a.relname)) :
    PlainIo dir (fun _ => True) (cs.foldlM (applyStep path) b) := by
  induction cs generalizing b with
  | nil => exact plain_pure trivial
  | cons c cs ih =>
    rw [List.forall_mem_cons] at hcs
    have hstep : PlainIo dir (fun b' => ∀ a ∈ b'.applied, Plain (joinPath dir a.relname)) (applyStep path b c) := by
      unfold applyStep
      refine plain_bind (plain_read hcs.1) fun previous _ => plain_bind (plain_put hcs.1) fun ok _ => ?_
      split
      · refine plain_pure fun a ha => ?_
        rcases List.mem_append.1 ha with ha | ha
        · exact hb a ha
        · obtain rfl := List.mem_singleton.1 ha
          exact hcs.1
      · refine plain_bind (plain_rollback hb) fun _ _ b' hb' => ?_
        cases hb'
    rw [List.foldlM_cons]
    exact plain_bind hstep fun b' hb' => ih hcs.2 hb'

theorem plain_manifestName : Plain (joinPath dir manifestName) := plain_joinPath (by decide)

theorem plain_runBatch {m : Manifest} {cs : List (Str × Option Str)} {forgotten : List Str}
    (hcs : ∀ c ∈ cs, Plain (joinPath dir c.1)) : PlainProg dir (runBatch path m cs forgotten) := by
  have hio : PlainIo dir (fun _ => True) (runBatch path m cs forgotten) := by
    refine plain_bind (plain_foldlM_applyStep hcs (by simp [Batch.start])) fun b _ => ?_
    unfold finish
    split
    · exact plain_bind ⟨plain_manifestName, fun _ _ _ => trivial⟩ fun _ _ => plain_pure trivial
    · exact plain_pure trivial
  exact Prog.uses_mono (fun _ _ => trivial) hio

theorem plain_applyGenerate {plan : GenerationPlan}
    (hcs : ∀ c ∈ changesOf plan.writes plan.removes, Plain (joinPath dir c.1)) :
    PlainProg dir (applyGenerate path plan) := by
  rw [applyGenerate_eq]
  split
  · exact plain_runBatch hcs
  · exact trivial

theorem endsPlain_staticNames : ∀ n ∈ staticNames, endsPlain n = true := by
  unfold staticNames graph tweaks
  simp only [List.map_cons, List.map_nil, List.cons_append, List.nil_append]
  repeat rw [String.toList_ofList]
  decide

theorem endsPlain_dropin {q : Str} (h : dropinSuffix <:+ q) : endsPlain q = true := by
  have hsuffix : endsPlain dropinSuffix = true := by decide
  obtain ⟨p, rfl⟩ := h
  exact endsPlain_append p hsuffix

theorem plain_target {ctx : RenderCtx} {dropins : DropinInput} {tweaksEnabled reclaimStale : Bool} {t : Target}
    (ht : t ∈ targets ctx dropins tweaksEnabled reclaimStale) : Plain (joinPath dir t.relname) := by
  refine plain_joinPath ?_
  rcases mem_names_of_targets ht with h | h | h
  · exact endsPlain_staticNames _ h
  · rw [h]
    exact endsPlain_dropin (suffix_preloaderPath _)
  · rw [h]
    exact endsPlain_dropin (suffix_servicePath _)

end

/-- A generation leaves what a batch leaves: one with conflicts does nothing. -/
theorem wpc_applyGenerate {d : Rung} (path : Str) {ctx : RenderCtx} {dropins : ResolvedInput}
    {tweaksEnabled reclaimStale : Bool} {plan : GenerationPlan}
    (hplan : planGenerate d ctx dropins.toDropinInput tweaksEnabled reclaimStale = .ok plan) :
    fsWpc (BatchLeft d plan.manifest (changesOf plan.writes plan.removes) []) (fun _ _ => True)
      (applyGenerate path plan) d := by
  have hperm := permitted_generate hplan
  rw [applyGenerate_eq]
  split
  · exact wpc_runBatch (fun c hc => (hperm c hc).1.readable) (nodup_changes_generate hplan)
      (manifestName_not_mem_changes fun c hc => (hperm c hc).1)
  · exact ⟨⟨fun _ _ => Or.inl rfl, Or.inl rfl, fun _ h => h⟩, trivial⟩

/-- **Generations on disk**: a process is killed anywhere in a generation, also in the middle of a file, and
anything has failed before. Every file is as it was or as planned, as a whole; the manifest is as it was, or
that of the whole generation with all of it in place. -/
theorem generation_on_disk {s : FileSystem} {dir : Str} {ctx : RenderCtx} {dropins : ResolvedInput}
    {tweaksEnabled reclaimStale : Bool} {plan : GenerationPlan} (hs : s.Linked)
    (hplan : planGenerate (s.rung dir) ctx dropins.toDropinInput tweaksEnabled reclaimStale = .ok plan)
    (pid : Nat) (es : List (Event DiskChoice Unit)) :
    let s' := (diskMachine.exec es ⟨s, [some (onDisk pid dir (applyGenerate dir plan))]⟩).shared
    (∀ q, q ≠ manifestName → Plain (joinPath dir q) → s'.file (joinPath dir q) = s.file (joinPath dir q) ∨
      (q, s'.file (joinPath dir q)) ∈ Rung.toChanges (changesOf plan.writes plan.removes)) ∧
    (s'.file (joinPath dir manifestName) = s.file (joinPath dir manifestName) ∨
      s'.file (joinPath dir manifestName) =
          some (.text (plan.manifest.after (changesOf plan.writes plan.removes) []).render) ∧
        ∀ c ∈ changesOf plan.writes plan.removes, s'.file (joinPath dir c.1) = c.2.map .text) := by
  have hplain : ∀ c ∈ changesOf plan.writes plan.removes, Plain (joinPath dir c.1) := by
    obtain ⟨-, -, hp⟩ := planGenerate_ok.1 hplan
    intro c hc
    rw [hp] at hc
    obtain ⟨t, ht, hchange⟩ := mem_changesOf.1 hc
    exact (of_change hchange).1 ▸ plain_target ht
  have hpids : Function.Injective fun i => pid + i := fun i j h => by simpa using h
  have hplainProg : ∀ p ∈ [applyGenerate dir plan], PlainProg dir p :=
    List.forall_mem_singleton.2 (plain_applyGenerate hplain)
  obtain ⟨es', hI, -⟩ := exec_onDisk hpids hplainProg hs es
  have hleft : BatchLeft (s.rung dir) plan.manifest (changesOf plan.writes plan.removes) [] _ :=
    Effects.Machine.exec_alone_of_wpc (wpc_applyGenerate dir hplan) es'
  intro s'
  have hsame : ∀ q, Plain (joinPath dir q) → s'.file (joinPath dir q) = (fsMachine.exec es' ⟨s.rung dir,
    [some (applyGenerate dir plan)]⟩).shared.files q := fun q hp => (hI.files q hp).symm
  refine ⟨fun q hq hp => ?_, ?_⟩
  · rw [hsame q hp]
    exact hleft.files q hq
  · rw [hsame _ plain_manifestName]
    refine hleft.manifest.imp_right fun ⟨_, hfile, hmade⟩ => ⟨hfile, fun c hc => ?_⟩
    rw [hsame _ (hplain c hc)]
    exact (hmade c hc).1

/-! ## An empty disk -/

def emptyDisk : FileSystem := ⟨fun _ => none, fun _ => [], fun _ => false, 0⟩

theorem linked_emptyDisk : emptyDisk.Linked where
  links _ _ _ _ hl := by cases hl
  used _ _ hl := by cases hl

/-- Two processes write the same file. -/
def twoWriters : List (Prog fsOps Bool) :=
  ["one".toList, "two".toList].map fun content =>
    Prog.call (S := fsOps) (FsOp.put false "state".toList (some content))

/-- The first is killed in the middle of its temporary file. -/
def twoWritersRun : List (Event DiskChoice Unit) :=
  [.run 0 ⟨false, 0⟩, .run 1 ⟨false, 0⟩, .run 0 ⟨false, 7⟩, .run 0 ⟨false, 0⟩, .run 0 ⟨false, 0⟩, .kill 0 (),
    .run 1 ⟨false, 7⟩, .run 1 ⟨true, 0⟩]

theorem twoWriters_refine : ∃ es',
    (diskMachine.exec twoWritersRun ⟨emptyDisk, twoWriters.mapIdx fun i p =>
      some (onDisk (100 + i) "run".toList p)⟩).shared.file (joinPath "run".toList "state".toList) =
      (fsMachine.exec es' ⟨emptyDisk.rung "run".toList, twoWriters.map some⟩).shared.files "state".toList := by
  have hpids : Function.Injective fun i => 100 + i := fun i j h => by simpa using h
  have hstate : Plain (joinPath "run".toList "state".toList) := plain_joinPath (by decide)
  have hplain : ∀ p ∈ twoWriters, PlainProg "run".toList p := by
    intro p hp
    obtain ⟨content, -, rfl⟩ := List.mem_map.1 hp
    exact ⟨hstate, fun _ => trivial⟩
  obtain ⟨es', hfiles, -, -⟩ := atomicWrites_refine hpids hplain linked_emptyDisk twoWritersRun
  exact ⟨es', hfiles _ hstate⟩

/-- A hundred system calls into the first generation. -/
theorem generation_on_emptyDisk :
    (diskMachine.exec (List.replicate 100 (.run 0 ⟨false, 7⟩)) ⟨emptyDisk,
      [some (onDisk 100 "units".toList (applyGenerate "units".toList firstPlan))]⟩).shared.file
        (joinPath "units".toList wmService.name) = none ∨
      (wmService.name, (diskMachine.exec (List.replicate 100 (.run 0 ⟨false, 7⟩)) ⟨emptyDisk,
        [some (onDisk 100 "units".toList (applyGenerate "units".toList firstPlan))]⟩).shared.file
          (joinPath "units".toList wmService.name)) ∈
        Rung.toChanges (changesOf firstPlan.writes firstPlan.removes) := by
  have hplan : planGenerate (emptyDisk.rung "units".toList) usrBin swayInput.toDropinInput false false =
      .ok firstPlan := planGenerate_emptyRung
  have hmem : wmService.name ∈ staticNames := List.mem_append_left _ (List.mem_map_of_mem wmService_mem)
  have hne : wmService.name ≠ manifestName := fun he => manifestName_not_mem_staticNames (he ▸ hmem)
  exact (generation_on_disk linked_emptyDisk hplan 100 _).1 _ hne
    (plain_joinPath (endsPlain_staticNames _ hmem))

end Wsmr
