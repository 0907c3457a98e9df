import Mathlib.Data.List.Basic

/-!
# Named pipes

Bytes go through a named pipe in the order in which they are written. Opening an end waits until the other
end is open, or has been in the meantime; whoever is still waiting counts as having it open. A write fails when
nobody reads. A read waits for bytes while somebody writes, and then finds the end. What has not been read is
gone once nobody has the pipe open any more.
-/

namespace Fifo

structure Pipe (ι β : Type) where
  readers : List ι
  writers : List ι
  /-- Whose `open` has not returned yet. -/
  waiting : List ι
  data : List β
  deriving DecidableEq

namespace Pipe

variable {ι β : Type}

/-- Nobody has it open. -/
def unused : Pipe ι β := ⟨[], [], [], []⟩

def openRead (p : Pipe ι β) (i : ι) : Pipe ι β :=
  { p with
    readers := i :: p.readers
    waiting := if p.writers.isEmpty then i :: p.waiting else [] }

/-- Whoever opens first waits. -/
theorem openRead_unused {i : ι} : (unused.openRead i : Pipe ι β) = ⟨[i], [], [i], []⟩ := rfl

def openWrite (p : Pipe ι β) (i : ι) : Pipe ι β :=
  { p with
    writers := i :: p.writers
    waiting := if p.readers.isEmpty then i :: p.waiting else [] }

/-- With `O_NONBLOCK`. -/
def tryOpenWrite (p : Pipe ι β) (i : ι) : Option (Pipe ι β) := if p.readers.isEmpty then none else some (p.openWrite i)

def write (p : Pipe ι β) (bytes : List β) : Option (Pipe ι β) :=
  if p.readers.isEmpty then none else some { p with data := p.data ++ bytes }

/-- No bytes are the end; `none` is waiting for more. -/
def read (p : Pipe ι β) (n : Nat) : Option (List β × Pipe ι β) :=
  if p.data.isEmpty then if p.writers.isEmpty then some ([], p) else none
  else some (p.data.take n, { p with data := p.data.drop n })

/-- What is left when somebody has closed it. -/
def settled (p : Pipe ι β) : Pipe ι β := if p.readers.isEmpty && p.writers.isEmpty then { p with data := [] } else p

variable [DecidableEq ι]

def closeRead (p : Pipe ι β) (i : ι) : Pipe ι β :=
  { p with readers := p.readers.erase i, waiting := p.waiting.erase i }.settled

def closeWrite (p : Pipe ι β) (i : ι) : Pipe ι β :=
  { p with writers := p.writers.erase i, waiting := p.waiting.erase i }.settled

variable {i : ι} {data : List β}

theorem closeWrite_last : (⟨[], [i], [], data⟩ : Pipe ι β).closeWrite i = .unused := by
  simp [closeWrite, settled, unused]

theorem closeRead_last : (⟨[i], [], [], data⟩ : Pipe ι β).closeRead i = .unused := by
  simp [closeRead, settled, unused]

end Pipe
end Fifo
