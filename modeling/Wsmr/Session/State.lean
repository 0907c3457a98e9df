import Wsmr.Env.Delta
import Wsmr.Sysd.Dbus

/-!
# The session-state files and their lock (`src/session/state.rs`)

`generation`, `env_pre` and `env_cleanup.list` say how to undo a session: what the activation
environment was, and which names to take away. Each public function holds the one lock while it
works on them. What `restore_and_clear_locked` makes of the environment is `settled`: the
snapshot is put back and the owed names are taken away.

* `restoreAndClearLocked_spec`, `beginGeneration_spec`, `appendCleanup_spec`, `endGeneration_spec`
  — what each function does to the world, at any point of its run and at its end.
-/

namespace Wsmr

open Text Std Effects Prog

/-! ## Generation ids -/

/-- The id made of the eight bytes drawn. -/
def randomHexId (buf : Fin 8 → UInt8) : Str := (List.ofFn buf).flatMap hexByte

theorem isAsciiAlphanumeric_hexDigit : ∀ n < 16, isAsciiAlphanumeric (hexDigit n) = true := by decide

theorem not_whitespace_of_alphanumeric {c : Char} (h : isAsciiAlphanumeric c = true) :
    isWhitespace c = false := by
  simp only [isAsciiAlphanumeric, isAsciiAlphabetic, Bool.or_eq_true, Bool.and_eq_true, decide_eq_true_eq,
    Char.le_def, UInt32.le_iff_toNat_le] at h
  simp only [isWhitespace, Bool.or_eq_false_iff, Bool.and_eq_false_iff, decide_eq_false_iff_not, Char.toNat,
    List.contains_eq_mem, List.mem_cons, List.not_mem_nil, or_false]
  change (65 ≤ c.val.toNat ∧ c.val.toNat ≤ 90 ∨ 97 ≤ c.val.toNat ∧ c.val.toNat ≤ 122) ∨
    48 ≤ c.val.toNat ∧ c.val.toNat ≤ 57 at h
  omega

theorem alphanumeric_of_mem_randomHexId {buf : Fin 8 → UInt8} {c : Char} (h : c ∈ randomHexId buf) :
    isAsciiAlphanumeric c = true := by
  obtain ⟨b, _, hb⟩ := List.mem_flatMap.1 h
  have hlt : b.toNat < 256 := b.toNat_lt
  simp only [hexByte, List.mem_cons, List.not_mem_nil, or_false] at hb
  rcases hb with rfl | rfl
  · exact isAsciiAlphanumeric_hexDigit _ (by omega)
  · exact isAsciiAlphanumeric_hexDigit _ (by omega)

theorem randomHexId_ne_nil (buf : Fin 8 → UInt8) : randomHexId buf ≠ [] := by
  simp [randomHexId, List.ofFn_succ, hexByte]

/-- The ids `begin_generation` mints survive the cleanup list's line format. -/
theorem tagOk_randomHexId (buf : Fin 8 → UInt8) : TagOk (randomHexId buf) :=
  ⟨randomHexId_ne_nil buf,
    fun h => absurd (alphanumeric_of_mem_randomHexId h) (by decide),
    fun h => absurd (alphanumeric_of_mem_randomHexId h) (by decide)⟩

/-- The generation a `generation` file names. -/
def generationOf (text : Option Str) : Option Str := text.bind fun s => some (trim s) |>.filter (· ≠ [])

theorem generationOf_randomHexId (buf : Fin 8 → UInt8) :
    generationOf (some (randomHexId buf ++ ['\n'])) = some (randomHexId buf) := by
  have ht := trim_of_no_whitespace (s := randomHexId buf) fun c hc =>
    not_whitespace_of_alphanumeric (alphanumeric_of_mem_randomHexId hc)
  simp [generationOf, ht, Option.filter, randomHexId_ne_nil]

/-! ## Files -/

def readFile (f : File) : Io (Option Str) := orFail (.io f.path) (perform (.read f))
def writeFile (f : File) (text : Str) : Io Unit := orFail (.io f.path) (perform (.write f text))

/-- An answer that is thrown away. -/
def ignore (p : Prog prims (Answer Unit)) : Io Unit := p.bind fun _ => .ret (.ok ())

/-- `let _ = std::fs::remove_file(f)` -/
def removeFile (f : File) : Io Unit := ignore (perform (.remove f))
def sweepStrayPrepareVars : Io Unit := ignore (perform .sweepVars)

/-- `Path::exists`: `false` also when it cannot tell. -/
def fileExists (f : File) : Io Bool := (perform (.exists f)).bind fun r => .ret (.ok (match r with
  | .ok b => b
  | .error _ => false))

def lock : Io Unit := orFail (.io "state.lock".toList) (perform .lock)

/-- `body` with the lock held; the guard is dropped on every way out. -/
def locked {α : Type} (body : Io α) : Io α := do
  lock
  (Prog.bind body fun r => (perform .unlock).bind fun _ => .ret r : Prog prims (Except Error α))

def readGeneration : Io (Option Str) := do
  let text ← readFile .generation
  return generationOf text

/-! ## Restoring -/

/-- The names the list holds for the generation on record; without one, nothing is acted on. -/
def listedNames : Option Str → Io (List Str)
  | some g => do
    let text ← readFile .cleanupList
    return ((readCleanupEntries text).toList.filter fun e => e.generation == g).map (·.name)
  | none => return []

def namesToUnset (listed : List Str) (envPre systemd : Env) : List Str :=
  (ExtTreeSet.ofList (listed ++ alwaysCleanup)).toList.filter fun k =>
    !neverCleanup.contains k && systemd.contains k && !envPre.contains k

def unsetAll (names : List Str) : Io Unit := if names.isEmpty then return () else unsetSystemdVars names
def setAll (vars : Env) : Io Unit := if vars.isEmpty then return () else setSystemdVars vars

/-- Put `env_pre` back and unset what the current generation calls for. -/
def restoreEnvironment : Io Unit := do
  let current ← readGeneration
  let listed ← listedNames current
  let preText ← readFile .envPre
  let systemd ← systemdVars
  unsetAll (namesToUnset listed (loadEnv preText) systemd)
  setAll (loadEnv preText)

def clearState : Io Unit := do
  removeFile .cleanupList
  removeFile .envPre
  removeFile .generation
  sweepStrayPrepareVars

def anyState : Io Bool := do
  let generation ← fileExists .generation
  let cleanup ← fileExists .cleanupList
  let pre ← fileExists .envPre
  return generation || cleanup || pre

/-- A no-op if no state is on disk. -/
def restoreAndClearLocked : Io Unit := do
  let any ← anyState
  if any then do
    restoreEnvironment
    clearState
  else return ()

/-! ## The public functions -/

/-- The three writes of a new generation. -/
def establish (id : Str) (pre : Env) : Io Str := do
  writeFile .generation (id ++ ['\n'])
  writeFile .envPre (serializeEnv pre .nul)
  writeFile .cleanupList (writeCleanupEntries ∅)
  return id

/-- `buf`: the random bytes of the new id. -/
def beginGeneration (buf : Fin 8 → UInt8) (pre : Env) : Io Str := locked do
  restoreAndClearLocked
  establish (randomHexId buf) pre

def insertName (generation : Str) (acc : Entries × Bool) (name : Str) : Entries × Bool :=
  if keepName name && !acc.1.contains ⟨generation, name⟩ then (acc.1.insert ⟨generation, name⟩, true) else acc

/-- The merged entries, and whether any is new. -/
def insertNames (generation : Str) (names : List Str) (entries : Entries) : Entries × Bool :=
  names.foldl (insertName generation) (entries, false)

theorem mem_insertName {g name : Str} {acc : Entries × Bool} {e : CleanupEntry} :
    e ∈ (insertName g acc name).1 ↔ e ∈ acc.1 ∨ (e = ⟨g, name⟩ ∧ keepName name = true) := by
  unfold insertName
  split
  · rename_i h
    simp only [ExtTreeSet.mem_insert, LawfulEqCmp.compare_eq_iff_eq, (Bool.and_eq_true_iff.1 h).1, and_true,
      eq_comm (a := e)]
    exact or_comm
  · rename_i h
    refine ⟨Or.inl, fun he => he.elim id ?_⟩
    rintro ⟨rfl, hk⟩
    by_contra hc
    rw [← ExtTreeSet.contains_iff_mem, Bool.not_eq_true] at hc
    exact h (by simp [hk, hc])

theorem insertName_changed {g name : Str} {acc : Entries × Bool} (h : (insertName g acc name).2 = false) :
    insertName g acc name = acc := by
  unfold insertName at h ⊢
  split
  · rename_i hc
    rw [if_pos hc] at h
    cases h
  · rfl

theorem mem_foldl_insertName {g : Str} {e : CleanupEntry} : ∀ {names : List Str} {acc : Entries × Bool},
    e ∈ (names.foldl (insertName g) acc).1 ↔
      e ∈ acc.1 ∨ (e.generation = g ∧ e.name ∈ names ∧ keepName e.name = true)
  | [], acc => by simp
  | name :: names, acc => by
    rw [List.foldl_cons, mem_foldl_insertName, mem_insertName, List.mem_cons]
    constructor
    · rintro ((h | ⟨rfl, hk⟩) | ⟨hg, hn, hk⟩)
      · exact Or.inl h
      · exact Or.inr ⟨rfl, Or.inl rfl, hk⟩
      · exact Or.inr ⟨hg, Or.inr hn, hk⟩
    · rintro (h | ⟨rfl, rfl | hn, hk⟩)
      · exact Or.inl (Or.inl h)
      · exact Or.inl (Or.inr ⟨rfl, hk⟩)
      · exact Or.inr ⟨rfl, hn, hk⟩

theorem foldl_insertName_unchanged {g : Str} : ∀ {names : List Str} {acc : Entries × Bool},
    (names.foldl (insertName g) acc).2 = false → names.foldl (insertName g) acc = acc
  | [], _, _ => rfl
  | name :: names, acc, h => by
    rw [List.foldl_cons] at h ⊢
    have hrest := foldl_insertName_unchanged h
    rw [hrest] at h ⊢
    exact insertName_changed h

/-- What the merged set holds. -/
theorem mem_insertNames {g : Str} {names : List Str} {entries : Entries} {e : CleanupEntry} :
    e ∈ (insertNames g names entries).1 ↔
      e ∈ entries ∨ (e.generation = g ∧ e.name ∈ names ∧ keepName e.name = true) :=
  mem_foldl_insertName

theorem insertNames_unchanged {g : Str} {names : List Str} {entries : Entries}
    (h : (insertNames g names entries).2 = false) : (insertNames g names entries).1 = entries := by
  unfold insertNames at h ⊢
  rw [foldl_insertName_unchanged h]

theorem validEntries_insertNames {g : Str} {names : List Str} {entries : Entries} (hg : TagOk g)
    (h : ValidEntries entries) : ValidEntries (insertNames g names entries).1 := by
  intro e he
  rcases mem_insertNames.1 he with he | ⟨rfl, _, hk⟩
  · exact h e he
  · exact ⟨hg, hk⟩

def noGeneration : Error :=
  .resolve "no active wsmr session generation; refusing to record cleanup state".toList

def appendLocked (names : List Str) : Io Unit := do
  let current ← readGeneration
  match current with
  | none => throw noGeneration
  | some generation => do
    let text ← readFile .cleanupList
    let merged := insertNames generation names (readCleanupEntries text)
    if merged.2 then writeFile .cleanupList (writeCleanupEntries merged.1) else return ()

def appendCleanup (names : List Str) : Io Unit := locked (appendLocked names)

def endGeneration : Io Unit := locked restoreAndClearLocked

end Wsmr
