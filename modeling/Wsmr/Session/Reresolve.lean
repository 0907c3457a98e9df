import Wsmr.Main
import Wsmr.Session.Start
import Wsmr.Units.Commands

/-!
# The units resolve the compositor again (`src/session/exec.rs`, `src/session/prepare.rs`)

The service runs `aux exec`, and the preloader `aux prepare-env`, with words from which `resolve_aux` is to
get back what `start` has resolved. The words are those of the drop-in, if it has a command, else the
instance alone. In both cases the compositor is resolved from one word (`unitWord`).
-/

namespace Wsmr

open Text

/-- The words after `aux exec`. -/
def execWords (comp : CompGlobals) (binPath : Str) : List Str :=
  ((serviceCommand comp.id (buildDropins comp binPath)).map (List.drop 3)).getD ["--".toList, comp.id]

/-- The words after `aux prepare-env`. -/
def prepareWords (comp : CompGlobals) (binPath : Str) : List Str :=
  ((preloaderCommand comp.id (buildDropins comp binPath)).map (List.drop 3)).getD ["--".toList, comp.id]

def CompGlobals.program (comp : CompGlobals) : Str := comp.cmdline.headD []

/-- The word from which a unit resolves the compositor again. -/
def unitWord (comp : CompGlobals) : Str := if isAbsolute comp.program then comp.program else comp.id

/-! ## The words -/

section
variable {host : Host} {xdg binPath : Str} {comp : CompGlobals}

theorem parseAux_positionals (id : Str) (cmdline : List Str) :
    parseAux ("--".toList :: id :: cmdline) = some ⟨none, false, none, none, id, cmdline⟩ := by
  unfold parseAux parseAuxFrom
  rw [if_pos rfl]

theorem execWords_eq : execWords comp binPath = "--".toList :: comp.id :: serviceArgs (buildDropins comp binPath) := by
  unfold execWords serviceCommand
  cases hargs : serviceArgs (buildDropins comp binPath) with
  | nil => rfl
  | cons a args => rfl

theorem isAbsolute_nil : isAbsolute [] = false := by decide

theorem firstIsAbsolute_buildDropins : firstIsAbsolute (buildDropins comp binPath) = isAbsolute comp.program := by
  unfold firstIsAbsolute buildDropins CompGlobals.program isAbsolute
  cases comp.cmdline with
  | nil => exact isAbsolute_nil.symm
  | cons w ws => rfl

theorem ne_nil_of_isAbsolute {w : Str} (h : isAbsolute w = true) : w ≠ [] := by
  rintro rfl
  rw [isAbsolute_nil] at h
  cases h

/-- The command line that `aux exec` resolves. -/
theorem auxCmdline_exec : auxCmdline ⟨none, false, none, none, comp.id, serviceArgs (buildDropins comp binPath)⟩ =
    unitWord comp :: comp.cmdline.drop 1 := by
  unfold serviceArgs unitWord
  rw [firstIsAbsolute_buildDropins]
  cases habs : isAbsolute comp.program with
  | true =>
    have hne := ne_nil_of_isAbsolute habs
    unfold CompGlobals.program at hne ⊢
    cases hcmd : comp.cmdline with
    | nil => exact absurd (by rw [hcmd]; rfl) hne
    | cons w ws =>
      rw [hcmd] at hne
      have hw : w ≠ [] := hne
      simp only [buildDropins, hcmd, if_true, auxCmdline, if_neg hw]
      rfl
  | false =>
    have hcli : (buildDropins comp binPath).cliArgs = comp.cmdline.drop 1 := rfl
    rw [hcli]
    cases comp.cmdline.drop 1 <;> rfl

theorem runAux_exec : runAux host xdg (execWords comp binPath) =
    some ((meaning host (unitWord comp)).map
      (compOf ⟨unitWord comp :: comp.cmdline.drop 1, [], false, none, none, splitColon xdg⟩)) := by
  rw [runAux, execWords_eq, parseAux_positionals, Option.map_some, resolveAux, auxCmdline_exec]
  exact congrArg some (resolve_eq _ rfl)

end

/-! ## The command line -/

/-- `aux exec` is going to execute what `start` has resolved. -/
def KeepsCmdline (host : Host) (xdg : Str) (comp : CompGlobals) (binPath : Str) : Prop :=
  ∃ comp', runAux host xdg (execWords comp binPath) = some (.ok comp') ∧ comp'.cmdline = comp.cmdline

/-- An entry that is found by its id alone, with this command. -/
def FoundById (host : Host) (id : Str) (words : List Str) : Prop :=
  isEntryId id = true ∧ ∃ e, findEntry host "wayland-sessions".toList id = .ok (some e) ∧
    e.checkBasic host none = .ok () ∧ e.exec none = .ok words

/-- When the command line of `arg0` survives. -/
def CmdlineSurvives (host : Host) (arg0 : Str) (comp : CompGlobals) : Prop :=
  if isEntryArg arg0 then
    if isAbsolute comp.program then
      if isEntryArg comp.program then ∃ m, meaning host comp.program = .ok m ∧ m.words = [comp.program]
      else isWmId (fileBasename comp.program) = true
    else FoundById host comp.id [comp.program]
  else isAbsolute arg0 = true ∨ '/' ∉ arg0

section
variable {host : Host} {xdg binPath : Str} {comp : CompGlobals} {input : ResolveInput}

theorem keepsCmdline_iff (hne : comp.cmdline ≠ []) : KeepsCmdline host xdg comp binPath ↔
    ∃ m, meaning host (unitWord comp) = .ok m ∧ m.words = [comp.program] := by
  obtain ⟨w, ws, hcmd⟩ := List.exists_cons_of_ne_nil hne
  unfold KeepsCmdline
  rw [runAux_exec]
  simp only [CompGlobals.program, hcmd, List.headD_cons]
  cases meaning host (unitWord comp) with
  | error e => exact iff_of_false (by rintro ⟨_, h, -⟩; cases h) (by rintro ⟨_, h, -⟩; cases h)
  | ok m =>
    have hsame : (compOf ⟨unitWord comp :: (w :: ws).drop 1, [], false, none, none, splitColon xdg⟩ m).cmdline =
        m.words ++ ws := rfl
    constructor
    · rintro ⟨comp', h, hsurvives⟩
      obtain rfl := Except.ok.inj (Option.some.inj h)
      rw [hsame] at hsurvives
      exact ⟨m, rfl, List.append_cancel_right (hsurvives.trans (List.singleton_append (l := ws)).symm)⟩
    · rintro ⟨m', h, hwords⟩
      obtain rfl := Except.ok.inj h
      refine ⟨_, rfl, ?_⟩
      rw [hsame, hwords]
      rfl

/-- What is resolved, by its meaning. -/
theorem exists_meaning (h : resolve host input = .ok comp) : ∃ m, meaning host (input.wmCmdline.headD []) = .ok m ∧
    comp = compOf input m ∧ comp.cmdline ≠ [] := by
  cases hcmd : input.wmCmdline with
  | nil =>
    unfold resolve at h
    rw [hcmd] at h
    cases h
  | cons arg0 args =>
    rw [resolve_eq arg0 (by rw [hcmd]; rfl)] at h
    cases hm : meaning host arg0 with
    | error e => rw [hm] at h; cases h
    | ok m =>
      rw [hm] at h
      obtain rfl := Except.ok.inj h
      obtain ⟨w, ws, hwords, -⟩ := words_of_meaning hm
      exact ⟨m, hm, rfl, by simp [compOf, hwords]⟩

theorem loadEntry_id {id : Str} {action executable : Option Str} {e : DesktopEntry} :
    loadEntry host ⟨some id, action, executable, none⟩ id = .ok e ↔
      findEntry host "wayland-sessions".toList id = .ok (some e) := by
  unfold loadEntry
  dsimp only
  cases findEntry host "wayland-sessions".toList id with
  | error e => exact iff_of_false (by simp [bind, Except.bind]) (by simp)
  | ok found =>
    cases found with
    | none => exact iff_of_false (by simp [bind, Except.bind, throw, throwThe, MonadExceptOf.throw]) (by simp)
    | some e' => simp [bind, Except.bind, pure, Except.pure]

/-- An entry id resolves again when it is found without the path and the action. -/
theorem meaning_entryId {id : Str} (hsuffix : ".desktop".toList <:+ id) (hcolon : ':' ∉ id) (hslash : '/' ∉ id)
    (hwm : isWmId id = true) (words : List Str) : (∃ m, meaning host id = .ok m ∧ m.words = words) ↔
      FoundById host id words := by
  unfold FoundById
  have hparse := parse_id host hsuffix hcolon hslash
  cases hid : isEntryId id with
  | false =>
    refine iff_of_false ?_ (fun h => by cases h.1)
    rintro ⟨m, hm, -⟩
    rw [hid] at hparse
    rw [meaning, hparse] at hm
    cases hm
  | true =>
    rw [hid] at hparse
    rw [and_iff_right rfl]
    constructor
    · rintro ⟨m, hm, rfl⟩
      obtain ⟨rfl, e, he⟩ := (meaning_entry hparse rfl).1 hm
      exact ⟨e, loadEntry_id.1 he.load, he.check, he.exec⟩
    · rintro ⟨e, hload, hcheck, hexec⟩
      refine ⟨⟨id, words, splitList (e.get "DesktopNames".toList none), e.getLocalized host "Name".toList none,
        e.getLocalized host "Comment".toList none⟩, (meaning_entry hparse rfl).2 ⟨rfl, e, ?_⟩, rfl⟩
      exact ⟨loadEntry_id.2 hload, hcheck, hexec, hwm, rfl, rfl, rfl⟩

/-- **The command line** that `aux exec` resolves is that of `start` exactly in these cases. -/
theorem keeps_cmdline_iff (h : resolve host input = .ok comp) :
    KeepsCmdline host xdg comp binPath ↔ CmdlineSurvives host (input.wmCmdline.headD []) comp := by
  obtain ⟨m, hm, rfl, hne⟩ := exists_meaning h
  rw [keepsCmdline_iff hne]
  unfold CmdlineSurvives
  generalize input.wmCmdline.headD [] = arg0 at hm
  cases harg : isEntryArg arg0 with
  | true =>
    rw [if_pos rfl]
    unfold unitWord
    cases habs : isAbsolute (compOf input m).program with
    | true =>
      rw [if_pos rfl, if_pos rfl]
      cases hentry : isEntryArg (compOf input m).program with
      | true => rfl
      | false =>
        simp only [meaning_executable hentry]
        simp
    | false =>
      obtain ⟨hsuffix, hcolon, hslash⟩ := meaning_id harg hm
      rw [if_neg (by simp), if_neg (by simp)]
      exact meaning_entryId hsuffix hcolon hslash (wmId_of_meaning hm) _
  | false =>
    obtain ⟨hwm, rfl⟩ := (meaning_executable harg).1 hm
    have hprogram : (compOf input ⟨fileBasename arg0, [arg0], [], none, none⟩).program = arg0 := rfl
    rw [if_neg (by simp), hprogram]
    unfold unitWord
    rw [hprogram]
    cases habs : isAbsolute arg0 with
    | true =>
      exact iff_of_true ⟨_, (meaning_executable harg).2 ⟨hwm, rfl⟩, rfl⟩ (Or.inl rfl)
    | false =>
      have hid := meaning_fileBasename host harg hwm
      rw [if_neg (by simp), or_iff_right (by simp), ← fileBasename_eq_self_iff]
      constructor
      · rintro ⟨m, hm', hwords⟩
        obtain rfl := Except.ok.inj (hid.symm.trans hm')
        exact List.singleton_inj.1 hwords
      · intro he
        exact ⟨_, hid, congrArg (fun w => [w]) he⟩

end

/-- A host with nothing on it. -/
def bareHost : Host := ⟨fun _ => none, fun _ => none, fun _ => false, fun _ => none⟩

/-- `start` with one word and no options. -/
def inputOf (word : Str) : ResolveInput := ⟨[word], [], false, none, none, []⟩

theorem resolve_executable (word : Str) (harg : isEntryArg word = false) (hid : isWmId (fileBasename word) = true) :
    resolve bareHost (inputOf word) = .ok (compOf (inputOf word) ⟨fileBasename word, [word], [], none, none⟩) := by
  rw [resolve_eq word rfl, (meaning_executable harg).2 ⟨hid, rfl⟩]
  rfl

theorem keeps_cmdline_iff_sway : ∃ comp, resolve bareHost (inputOf "/usr/bin/sway".toList) = .ok comp ∧
    KeepsCmdline bareHost [] comp "/usr/bin/wsmr".toList := by
  have h := resolve_executable "/usr/bin/sway".toList (by decide) (by decide)
  refine ⟨_, h, (keeps_cmdline_iff h).2 ?_⟩
  unfold CmdlineSurvives
  rw [if_neg (by decide)]
  exact Or.inl (by decide)

/-- `start bin/sway` is going to execute `sway`. -/
theorem relative_path_lost : ∃ comp, resolve bareHost (inputOf "bin/sway".toList) = .ok comp ∧
    ¬ KeepsCmdline bareHost [] comp "/usr/bin/wsmr".toList := by
  have hword : isAbsolute "bin/sway".toList = false := by decide
  have hbase : fileBasename "bin/sway".toList = "sway".toList := by decide
  have hne : "sway".toList ≠ "bin/sway".toList := by decide
  have hsway : isEntryArg "sway".toList = false := by decide
  have h := resolve_executable "bin/sway".toList (by decide) (by decide)
  generalize "bin/sway".toList = word at *
  refine ⟨_, h, fun hkeeps => ?_⟩
  obtain ⟨m, hm, hwords⟩ := (keepsCmdline_iff (by simp [compOf])).1 hkeeps
  have hunit : unitWord (compOf (inputOf word) ⟨fileBasename word, [word], [], none, none⟩) = "sway".toList := by
    unfold unitWord
    rw [← hbase]
    show (if isAbsolute word = true then _ else _) = _
    rw [hword]
    rfl
  rw [hunit] at hm
  obtain ⟨-, rfl⟩ := (meaning_executable hsway).1 hm
  exact hne (List.singleton_inj.1 hwords)

end Wsmr
