import Wsmr.App.Find
import Wsmr.Comp
import Wsmr.Units.Escape

/-!
# Resolving a compositor (`src/comp.rs`)

The first word of a compositor command is classified (`MainArg.parse`): by its suffix it is a desktop
entry, else an executable. What the word stands for (`Meant`) does not depend on the other options, and
decides the command line and the id that `resolve` gives.
-/

namespace Wsmr

open Text

structure MainArg where
  entryId : Option Str
  entryAction : Option Str
  executable : Option Str
  path : Option Str
  deriving DecidableEq, Repr

def isActionId (s : Str) : Bool := !s.isEmpty && s.all fun c => isAsciiAlphanumeric c || c = '-'

/-- `^[A-Za-z0-9_][A-Za-z0-9_.-]*\.desktop$` -/
def isEntryId (s : Str) : Bool :=
  ".desktop".toList <:+ s && s.head?.any (fun c => isAsciiAlphanumeric c || c = '_') &&
    s.all fun c => isAsciiAlphanumeric c || ['_', '.', '-'].contains c

/-- `rsplit('/').next()` -/
def fileBasename (p : Str) : Str := (p.splitOn '/').getLast?.getD p

def normalizeUserPath (host : Host) (p : Str) : Str :=
  match stripPrefix "~/".toList p with
  | some rest =>
    match host.env "HOME".toList with
    | some home => home ++ '/' :: rest
    | none => p
  | none => p

/-- Taken for a desktop entry. -/
def isEntryArg (arg : Str) : Bool := ".desktop".toList <:+ arg || (splitFirst ".desktop:".toList arg).isSome

/-- The entry and the action of `id:action`. -/
def splitAction (arg : Str) : Except Error (Str × Option Str) :=
  match splitOnce ':' arg with
  | some (id, action) =>
    if action = [] then .ok (id, none)
    else if isActionId action then .ok (id, some action)
    else .error (.invalidArg ("invalid Desktop Entry Action \"".toList ++ action ++ "\"".toList))
  | none => .ok (arg, none)

def MainArg.parse (host : Host) (arg : Str) : Except Error MainArg :=
  if isEntryArg arg then do
    let (id, action) ← splitAction arg
    if id.contains '/' then
      let p := normalizeUserPath host id
      -- the id ends with `.desktop`, so that the path has a file name
      return ⟨some (fileBasename p), action, none, some p⟩
    else if isEntryId id then return ⟨some id, action, none, none⟩
    else throw (.invalidArg ("invalid Desktop Entry ID \"".toList ++ id ++ "\"".toList))
  else .ok ⟨none, none, some arg, if arg.contains '/' then some (normalizeUserPath host arg) else none⟩

structure ResolveInput where
  wmCmdline : List Str
  desktopNames : List Str
  desktopNamesExclusive : Bool
  name : Option Str
  description : Option Str
  xdgCurrentDesktop : List Str

/-- The loop of `sanitize_bin_id`; `first` at the first character. -/
def sanitizeFrom : Bool → Str → Str
  | _, [] => []
  | first, c :: s =>
    if (first && !isAsciiAlphabetic c) || !isWordChar c then
      '_' :: sanitizeFrom false (s.dropWhile fun c => !isWordChar c)
    else c :: sanitizeFrom false s
  termination_by _ s => s.length
  decreasing_by
    · exact Nat.lt_succ_of_le (List.dropWhile_sublist _).length_le
    · exact Nat.lt_succ_self _

def sanitizeBinId (name : Str) : Str := (sanitizeFrom true name).map Char.toLower

/-- First occurrences, in order. -/
def dedupPreserving (v : List Str) : List Str :=
  v.foldl (fun out x => if out.contains x then out else out ++ [x]) []

/-- The names of both branches; an entry is one source more. -/
def mergeDesktopNames (input : ResolveInput) (entryNames : List Str) (binName : Str) : List Str :=
  if input.desktopNamesExclusive then dedupPreserving input.desktopNames
  else
    let names := input.xdgCurrentDesktop ++ input.desktopNames ++ entryNames
    dedupPreserving (if names = [] then [binName] else names)

/-- The entry of a main argument, by path or by id. -/
def loadEntry (host : Host) (main : MainArg) (entryId : Str) : Except Error DesktopEntry :=
  match main.path with
  | some p => readEntry host p
  | none => do
    match ← findEntry host "wayland-sessions".toList entryId with
    | some e => return e
    | none => throw (.resolve ("compositor entry not found: ".toList ++ entryId))

def checkWmId (id : Str) : Except Error Unit :=
  if isWmId id then .ok () else .error (.resolve ("\"".toList ++ id ++ "\" is not a valid compositor id".toList))

def resolveEntry (host : Host) (input : ResolveInput) (main : MainArg) (entryId : Str) :
    Except Error CompGlobals := do
  let entry ← loadEntry host main entryId
  let action := main.entryAction
  entry.checkBasic host action
  let cmdline := (← entry.exec action) ++ input.wmCmdline.drop 1
  let id := entryId
  checkWmId id
  let binName := fileBasename (cmdline.head?.getD id)
  return {
    cmdline := cmdline
    id := id
    idUnitString := simpleSystemdEscape id false
    binName := binName
    binId := sanitizeBinId binName
    desktopNames := mergeDesktopNames input (splitList (entry.get "DesktopNames".toList none)) binName
    name := input.name.orElse fun _ => entry.getLocalized host "Name".toList action
    description := input.description.orElse fun _ => entry.getLocalized host "Comment".toList action
    cliDesktopNames := input.desktopNames
    cliDesktopNamesExclusive := input.desktopNamesExclusive }

def resolve (host : Host) (input : ResolveInput) : Except Error CompGlobals := do
  let some arg0 := input.wmCmdline.head? | throw (.invalidArg "no compositor command given".toList)
  let main ← MainArg.parse host arg0
  match main.entryId with
  | some entryId => resolveEntry host input main entryId
  | none =>
    let id := fileBasename arg0
    checkWmId id
    return {
      cmdline := input.wmCmdline
      id := id
      idUnitString := simpleSystemdEscape id false
      binName := id
      binId := sanitizeBinId id
      desktopNames := mergeDesktopNames input [] id
      name := input.name
      description := input.description
      cliDesktopNames := input.desktopNames
      cliDesktopNamesExclusive := input.desktopNamesExclusive }

/-! ## What the first word stands for -/

structure Meaning where
  id : Str
  words : List Str
  /-- `DesktopNames`, `Name` and `Comment` of an entry. -/
  desktopNames : List Str
  name : Option Str
  comment : Option Str

def meaning (host : Host) (arg : Str) : Except Error Meaning := do
  let main ← MainArg.parse host arg
  match main.entryId with
  | some entryId =>
    let entry ← loadEntry host main entryId
    entry.checkBasic host main.entryAction
    let words ← entry.exec main.entryAction
    checkWmId entryId
    return {
      id := entryId
      words := words
      desktopNames := splitList (entry.get "DesktopNames".toList none)
      name := entry.getLocalized host "Name".toList main.entryAction
      comment := entry.getLocalized host "Comment".toList main.entryAction }
  | none =>
    checkWmId (fileBasename arg)
    return ⟨fileBasename arg, [arg], [], none, none⟩

/-- The compositor of a meaning and the other options. -/
def compOf (input : ResolveInput) (m : Meaning) : CompGlobals :=
  let cmdline := m.words ++ input.wmCmdline.drop 1
  let binName := fileBasename (cmdline.head?.getD m.id)
  { cmdline := cmdline
    id := m.id
    idUnitString := simpleSystemdEscape m.id false
    binName := binName
    binId := sanitizeBinId binName
    desktopNames := mergeDesktopNames input m.desktopNames binName
    name := input.name.orElse fun _ => m.name
    description := input.description.orElse fun _ => m.comment
    cliDesktopNames := input.desktopNames
    cliDesktopNamesExclusive := input.desktopNamesExclusive }

/-- **Resolving** is looking up the meaning of the first word. -/
theorem resolve_eq {host : Host} {input : ResolveInput} (arg0 : Str) (h : input.wmCmdline.head? = some arg0) :
    resolve host input = (meaning host arg0).map (compOf input) := by
  have hcons : input.wmCmdline = arg0 :: input.wmCmdline.drop 1 := by
    obtain ⟨rest, hrest⟩ := List.head?_eq_some_iff.1 h
    rw [hrest]
    rfl
  unfold resolve meaning
  rw [h]
  dsimp only
  cases MainArg.parse host arg0 with
  | error e => rfl
  | ok main =>
    obtain ⟨entryId, action, executable, path⟩ := main
    cases entryId with
    | some entryId =>
      show resolveEntry host input _ entryId = Except.map (compOf input) (loadEntry host _ entryId >>= fun entry => _)
      unfold resolveEntry
      cases loadEntry host ⟨some entryId, action, executable, path⟩ entryId with
      | error e => rfl
      | ok entry =>
        show (entry.checkBasic host action >>= fun _ => _) =
          Except.map (compOf input) (entry.checkBasic host action >>= fun _ => _)
        cases entry.checkBasic host action with
        | error e => rfl
        | ok _ =>
          show (entry.exec action >>= fun words => _) = Except.map (compOf input) (entry.exec action >>= fun words => _)
          cases entry.exec action with
          | error e => rfl
          | ok words =>
            show (checkWmId entryId >>= fun _ => _) = Except.map (compOf input) (checkWmId entryId >>= fun _ => _)
            cases checkWmId entryId <;> rfl
    | none =>
      show (checkWmId (fileBasename arg0) >>= fun _ => _) =
        Except.map (compOf input) (checkWmId (fileBasename arg0) >>= fun _ => _)
      cases checkWmId (fileBasename arg0) with
      | error e => rfl
      | ok _ =>
        show Except.ok _ = Except.ok (compOf input ⟨fileBasename arg0, [arg0], [], none, none⟩)
        unfold compOf
        rw [List.singleton_append, ← hcons]
        dsimp only
        rw [h]
        cases input.name <;> cases input.description <;> rfl

/-- What is resolved has a meaning. -/
theorem compOf_of_resolve {host : Host} {input : ResolveInput} {comp : CompGlobals}
    (h : resolve host input = .ok comp) : ∃ m, comp = compOf input m := by
  cases harg : input.wmCmdline.head? with
  | none =>
    unfold resolve at h
    rw [harg] at h
    cases h
  | some arg0 =>
    rw [resolve_eq arg0 harg] at h
    cases hmeaning : meaning host arg0 with
    | error e =>
      rw [hmeaning] at h
      cases h
    | ok m =>
      rw [hmeaning] at h
      exact ⟨m, (Except.ok.inj h).symm⟩

/-! ## Base names -/

theorem fileBasename_of_not_mem {s : Str} (h : '/' ∉ s) : fileBasename s = s := by
  rw [fileBasename, List.splitOn_eq_singleton h]
  rfl

theorem fileBasename_append (a b : Str) : fileBasename (a ++ '/' :: b) = fileBasename b := by
  have hne : b.splitOn '/' ≠ [] := List.splitOn_ne_nil _ _
  unfold fileBasename
  rw [List.splitOn_append_cons_self, List.getLast?_append_of_ne_nil _ hne, List.getLast?_eq_getLast_of_ne_nil hne]
  rfl

theorem fileBasename_spec (s : Str) :
    '/' ∉ fileBasename s ∧ (fileBasename s = s ∨ ∃ a, s = a ++ '/' :: fileBasename s) := by
  by_cases h : '/' ∈ s
  · obtain ⟨b, a, hs, hb⟩ := List.eq_append_cons_of_mem (List.mem_reverse.2 h)
    have hrev : s = a.reverse ++ '/' :: b.reverse := by
      rw [← List.reverse_reverse s, hs]
      simp
    have hb' : '/' ∉ b.reverse := by simpa using hb
    rw [hrev, fileBasename_append, fileBasename_of_not_mem hb']
    exact ⟨hb', Or.inr ⟨_, rfl⟩⟩
  · rw [fileBasename_of_not_mem h]
    exact ⟨h, Or.inl rfl⟩

theorem slash_not_mem_fileBasename (s : Str) : '/' ∉ fileBasename s := (fileBasename_spec s).1

theorem fileBasename_fileBasename (s : Str) : fileBasename (fileBasename s) = fileBasename s :=
  fileBasename_of_not_mem (slash_not_mem_fileBasename s)

theorem suffix_fileBasename (s : Str) : fileBasename s <:+ s := by
  rcases (fileBasename_spec s).2 with h | ⟨a, h⟩
  · exact ⟨[], h⟩
  · exact ⟨a ++ ['/'], by rw [List.append_assoc]; exact h.symm⟩

theorem fileBasename_eq_self_iff {s : Str} : fileBasename s = s ↔ '/' ∉ s :=
  ⟨fun h => h ▸ slash_not_mem_fileBasename s, fileBasename_of_not_mem⟩

/-- A suffix without a slash is one of the base name. -/
theorem suffix_fileBasename_of_suffix {t s : Str} (ht : '/' ∉ t) (h : t <:+ s) : t <:+ fileBasename s := by
  rcases (fileBasename_spec s).2 with he | ⟨a, he⟩
  · rwa [he]
  · by_cases hlen : t.length ≤ (fileBasename s).length
    · exact List.suffix_of_suffix_length_le h (suffix_fileBasename s) hlen
    · have hmem : '/' ∈ t := by
        have hsuffix : '/' :: fileBasename s <:+ t := by
          refine List.suffix_of_suffix_length_le ⟨a, he.symm⟩ h ?_
          simp only [List.length_cons]
          omega
        exact hsuffix.subset List.mem_cons_self
      exact absurd hmem ht

/-! ## Entries and executables -/

theorem isEntryArg_iff {arg : Str} :
    isEntryArg arg = true ↔ ".desktop".toList <:+ arg ∨ ".desktop:".toList <:+: arg := by
  unfold isEntryArg
  rw [Bool.or_eq_true, decide_eq_true_eq, isSome_splitFirst (by decide)]

/-- The base name of an executable is not taken for an entry. -/
theorem not_entry_fileBasename {arg : Str} (h : isEntryArg arg = false) : isEntryArg (fileBasename arg) = false := by
  rw [← Bool.not_eq_true, isEntryArg_iff, not_or] at h ⊢
  exact ⟨fun hs => h.1 (hs.trans (suffix_fileBasename arg)), fun hs => h.2 (hs.trans (suffix_fileBasename arg).isInfix)⟩

/-- A colon after `suffix` is the first one, or `suffix` comes after the first one. -/
theorem suffix_of_colon {suffix a b id action : Str} (hsuffix : ':' ∉ suffix) (hid : ':' ∉ id)
    (h : id ++ ':' :: action = a ++ suffix ++ ':' :: b) : suffix <:+ id ∨ suffix <:+: action := by
  have hsplit := splitOnce_append action hid
  rw [h] at hsplit
  by_cases ha : ':' ∈ a
  · obtain ⟨a₁, a₂, rfl, ha₁⟩ := List.eq_append_cons_of_mem ha
    have heq := splitOnce_append (a₂ ++ suffix ++ ':' :: b) ha₁
    simp only [List.append_assoc, List.cons_append] at heq hsplit
    obtain ⟨-, rfl⟩ := Prod.mk.inj (Option.some.inj (heq.symm.trans hsplit))
    exact Or.inr ⟨a₂, ':' :: b, by simp⟩
  · have hnot : ':' ∉ a ++ suffix := by simp [ha, hsuffix]
    obtain ⟨rfl, -⟩ := Prod.mk.inj (Option.some.inj ((splitOnce_append b hnot).symm.trans hsplit))
    exact Or.inl (List.suffix_append _ _)

theorem dot_not_mem_action {action : Str} (h : isActionId action = true) : '.' ∉ action := fun hm => by
  have hdot := List.all_eq_true.1 (Bool.and_eq_true_iff.1 h).2 '.' hm
  exact absurd hdot (by decide)

/-- The id of an entry argument. -/
theorem splitAction_id {arg id : Str} {action : Option Str} (harg : isEntryArg arg = true)
    (h : splitAction arg = .ok (id, action)) : ".desktop".toList <:+ id ∧ ':' ∉ id := by
  have hcolon : ':' ∉ ".desktop".toList := by decide
  have hdot : '.' ∈ ".desktop".toList := by decide
  have hlong : ".desktop:".toList = ".desktop".toList ++ [':'] := by decide
  rw [isEntryArg_iff, hlong] at harg
  generalize ".desktop".toList = suffix at harg hcolon hdot ⊢
  unfold splitAction at h
  cases hsplit : splitOnce ':' arg with
  | none =>
    rw [hsplit] at h
    obtain ⟨rfl, -⟩ := Prod.mk.inj (Except.ok.inj h)
    have hno := not_mem_of_splitOnce_eq_none hsplit
    exact ⟨harg.resolve_right fun hin => hno (hin.subset (by simp)), hno⟩
  | some p =>
    obtain ⟨id', rest⟩ := p
    obtain ⟨rfl, hid⟩ := splitOnce_eq_some hsplit
    rw [hsplit] at h
    dsimp only at h
    -- the part after the first colon has no dot in it
    have hrest : id' = id ∧ '.' ∉ rest := by
      split at h
      · rename_i hempty
        exact ⟨(Prod.mk.inj (Except.ok.inj h)).1, by simp [hempty]⟩
      · split at h
        · rename_i haction
          exact ⟨(Prod.mk.inj (Except.ok.inj h)).1, dot_not_mem_action haction⟩
        · cases h
    obtain ⟨rfl, hrest⟩ := hrest
    refine ⟨?_, hid⟩
    rcases harg with harg | ⟨a, b, hab⟩
    · exfalso
      by_cases hlen : suffix.length ≤ rest.length
      · have hsub : suffix <:+ rest := List.suffix_of_suffix_length_le harg
          ((List.suffix_cons _ _).trans (List.suffix_append _ _)) hlen
        exact hrest (hsub.subset hdot)
      · have hsub : ':' :: rest <:+ suffix := List.suffix_of_suffix_length_le (List.suffix_append _ _) harg (by
          simp only [List.length_cons]
          omega)
        exact hcolon (hsub.subset List.mem_cons_self)
    · refine (suffix_of_colon hcolon hid (a := a) (b := b) ?_).resolve_right fun hin => hrest (hin.subset hdot)
      rw [← hab]
      simp

/-- The home directory has no part in the base name. -/
theorem fileBasename_normalizeUserPath (host : Host) (p : Str) :
    fileBasename (normalizeUserPath host p) = fileBasename p := by
  unfold normalizeUserPath
  cases hstrip : stripPrefix "~/".toList p with
  | none => rfl
  | some rest =>
    have htilde : "~/".toList = ['~'] ++ ['/'] := by decide
    have hp : p = ['~'] ++ '/' :: rest := by
      rw [stripPrefix_eq_some.1 hstrip, htilde]
      rfl
    dsimp only
    cases host.env "HOME".toList with
    | none => rfl
    | some home => rw [hp, fileBasename_append, fileBasename_append]

/-- What an entry argument is parsed to. -/
theorem parse_entry {host : Host} {arg : Str} {main : MainArg} (harg : isEntryArg arg = true)
    (h : MainArg.parse host arg = .ok main) :
    ∃ id, main.entryId = some id ∧ ".desktop".toList <:+ id ∧ ':' ∉ id ∧ '/' ∉ id := by
  have hslash : '/' ∉ ".desktop".toList := by decide
  unfold MainArg.parse at h
  rw [if_pos harg] at h
  cases hsplit : splitAction arg with
  | error e =>
    rw [hsplit] at h
    cases h
  | ok p =>
    obtain ⟨id, action⟩ := p
    obtain ⟨hsuffix, hcolon⟩ := splitAction_id harg hsplit
    rw [hsplit] at h
    dsimp only [bind, Except.bind] at h
    split at h
    · cases h
      refine ⟨_, rfl, ?_⟩
      rw [fileBasename_normalizeUserPath]
      exact ⟨suffix_fileBasename_of_suffix hslash hsuffix,
        fun hm => hcolon ((suffix_fileBasename id).subset hm), slash_not_mem_fileBasename id⟩
    · rename_i hnoslash
      split at h
      · cases h
        exact ⟨id, rfl, hsuffix, hcolon, fun hm => hnoslash (List.contains_iff_mem.2 hm)⟩
      · cases h

theorem parse_executable {host : Host} {arg : Str} {main : MainArg} (harg : isEntryArg arg = false)
    (h : MainArg.parse host arg = .ok main) : main.entryId = none := by
  unfold MainArg.parse at h
  rw [harg] at h
  cases h
  rfl

/-- The id of an entry is an entry argument by itself, without an action. -/
theorem parse_id (host : Host) {id : Str} (hsuffix : ".desktop".toList <:+ id) (hcolon : ':' ∉ id)
    (hslash : '/' ∉ id) :
    MainArg.parse host id =
      if isEntryId id then .ok ⟨some id, none, none, none⟩
      else .error (.invalidArg ("invalid Desktop Entry ID \"".toList ++ id ++ "\"".toList)) := by
  have harg : isEntryArg id = true := isEntryArg_iff.2 (Or.inl hsuffix)
  have hsplit : splitAction id = .ok (id, none) := by
    rw [splitAction, splitOnce_eq_none hcolon]
  have hno : id.contains '/' = false := by simpa using hslash
  unfold MainArg.parse
  rw [if_pos harg, hsplit]
  show (if id.contains '/' = true then _ else _) = _
  rw [hno]
  rfl

/-! ## Meanings -/

section
variable {host : Host} {arg : Str} {m : Meaning}

theorem checkWmId_eq_ok {id : Str} {u : Unit} : checkWmId id = .ok u ↔ isWmId id = true := by
  unfold checkWmId
  split
  · rename_i h
    exact iff_of_true rfl h
  · rename_i h
    exact iff_of_false (by simp) h

/-- The meaning of an executable. -/
theorem meaning_executable (harg : isEntryArg arg = false) :
    meaning host arg = .ok m ↔ isWmId (fileBasename arg) = true ∧ m = ⟨fileBasename arg, [arg], [], none, none⟩ := by
  unfold meaning MainArg.parse
  rw [harg]
  show (checkWmId (fileBasename arg) >>= fun _ => _) = _ ↔ _
  cases hid : checkWmId (fileBasename arg) with
  | error e =>
    have hno : ¬ isWmId (fileBasename arg) = true := fun h => by
      rw [checkWmId_eq_ok (u := ()).2 h] at hid
      cases hid
    exact iff_of_false (by simp [bind, Except.bind]) fun h => hno h.1
  | ok u =>
    rw [and_iff_right (checkWmId_eq_ok.1 hid)]
    exact ⟨fun h => (Except.ok.inj h).symm, fun h => h ▸ rfl⟩

variable (host) in
/-- The base name of an executable stands for itself. -/
theorem meaning_fileBasename (harg : isEntryArg arg = false) (hid : isWmId (fileBasename arg) = true) :
    meaning host (fileBasename arg) = .ok ⟨fileBasename arg, [fileBasename arg], [], none, none⟩ :=
  (meaning_executable (not_entry_fileBasename harg)).2
    ⟨by rwa [fileBasename_fileBasename], by rw [fileBasename_fileBasename]⟩

/-- The meaning of an entry. -/
structure EntryMeaning (host : Host) (main : MainArg) (m : Meaning) (e : DesktopEntry) : Prop where
  load : loadEntry host main m.id = .ok e
  check : e.checkBasic host main.entryAction = .ok ()
  exec : e.exec main.entryAction = .ok m.words
  wm_id : isWmId m.id = true
  names : m.desktopNames = splitList (e.get "DesktopNames".toList none)
  name : m.name = e.getLocalized host "Name".toList main.entryAction
  comment : m.comment = e.getLocalized host "Comment".toList main.entryAction

theorem meaning_entry {main : MainArg} {id : Str} (hparse : MainArg.parse host arg = .ok main)
    (hid : main.entryId = some id) :
    meaning host arg = .ok m ↔ id = m.id ∧ ∃ e, EntryMeaning host main m e := by
  obtain ⟨entryId, action, executable, path⟩ := main
  obtain rfl : entryId = some id := hid
  unfold meaning
  rw [hparse]
  constructor
  · intro h
    change (loadEntry host _ id >>= fun entry => _) = _ at h
    cases hload : loadEntry host ⟨some id, action, executable, path⟩ id with
    | error e => rw [hload] at h; cases h
    | ok e =>
      rw [hload] at h
      change (e.checkBasic host action >>= fun _ => _) = _ at h
      cases hcheck : e.checkBasic host action with
      | error e => rw [hcheck] at h; cases h
      | ok _ =>
        rw [hcheck] at h
        change (e.exec action >>= fun words => _) = _ at h
        cases hexec : e.exec action with
        | error e => rw [hexec] at h; cases h
        | ok words =>
          rw [hexec] at h
          change (checkWmId id >>= fun _ => _) = _ at h
          cases hwm : checkWmId id with
          | error e => rw [hwm] at h; cases h
          | ok _ =>
            rw [hwm] at h
            cases h
            exact ⟨rfl, e, hload, hcheck, hexec, checkWmId_eq_ok.1 hwm, rfl, rfl, rfl⟩
  · rintro ⟨rfl, e, hload, hcheck, hexec, hwm, hnames, hname, hcomment⟩
    show (loadEntry host _ m.id >>= fun entry => _) = _
    rw [hload]
    show (e.checkBasic host action >>= fun _ => _) = _
    rw [hcheck]
    show (e.exec action >>= fun words => _) = _
    rw [hexec]
    show (checkWmId m.id >>= fun _ => _) = _
    rw [checkWmId_eq_ok (u := ()).2 hwm]
    refine congrArg Except.ok ?_
    cases m
    exact Meaning.mk.injEq .. ▸ ⟨rfl, rfl, hnames.symm, hname.symm, hcomment.symm⟩

theorem exists_entry (harg : isEntryArg arg = true) (h : meaning host arg = .ok m) :
    ∃ main e, MainArg.parse host arg = .ok main ∧ main.entryId = some m.id ∧ EntryMeaning host main m e := by
  cases hparse : MainArg.parse host arg with
  | error e =>
    rw [meaning, hparse] at h
    cases h
  | ok main =>
    obtain ⟨id, hid, -⟩ := parse_entry harg hparse
    obtain ⟨rfl, e, he⟩ := (meaning_entry hparse hid).1 h
    exact ⟨main, e, rfl, hid, he⟩

theorem meaning_id (harg : isEntryArg arg = true) (h : meaning host arg = .ok m) :
    ".desktop".toList <:+ m.id ∧ ':' ∉ m.id ∧ '/' ∉ m.id := by
  obtain ⟨main, e, hparse, hid, -⟩ := exists_entry harg h
  obtain ⟨id, hid', hspec⟩ := parse_entry harg hparse
  obtain rfl := Option.some.inj (hid.symm.trans hid')
  exact hspec

theorem wmId_of_meaning (h : meaning host arg = .ok m) : isWmId m.id = true := by
  cases harg : isEntryArg arg with
  | false =>
    obtain ⟨hid, rfl⟩ := (meaning_executable harg).1 h
    exact hid
  | true =>
    obtain ⟨main, e, -, -, he⟩ := exists_entry harg h
    exact he.wm_id

/-- The first word is the argument, or the program of the entry. -/
theorem words_of_meaning (h : meaning host arg = .ok m) : ∃ w ws, m.words = w :: ws ∧ w ≠ [] := by
  cases harg : isEntryArg arg with
  | false =>
    obtain ⟨hid, rfl⟩ := (meaning_executable harg).1 h
    refine ⟨arg, [], rfl, ?_⟩
    rintro rfl
    exact absurd hid (by decide)
  | true =>
    obtain ⟨main, e, -, -, he⟩ := exists_entry harg h
    obtain ⟨w, ws, hwords, hne, -⟩ := DesktopEntry.checkCommand_ok (DesktopEntry.checkBasic_ok he.check) he.exec
    exact ⟨w, ws, hwords, hne⟩

end

end Wsmr
