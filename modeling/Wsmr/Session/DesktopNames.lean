import Wsmr.Lib.Dedup
import Wsmr.Session.Reresolve

/-!
# The desktop names of the preloader (`src/session/prepare.rs`)

`start` hands its desktop names to `aux prepare-env` in one word, or leaves them out when the name of the
binary is the only one. The preloader adds those of what it resolves by itself.
-/

namespace Wsmr

open Text Dedup

theorem dedupPreserving_eq (v : List Str) : dedupPreserving v = v.eraseDups := Dedup.foldl_eq_eraseDups v

/-! ## One word -/

theorem splitColon_intercalate {names : List Str} (h : ∀ n ∈ names, n ≠ [] ∧ ':' ∉ n) :
    splitColon (List.intercalate ":".toList names) = names := by
  have hcolon : ":".toList = [':'] := by decide
  rw [hcolon]
  unfold splitColon
  cases names with
  | nil => rfl
  | cons n names =>
    have hne : List.intercalate [':'] (n :: names) ≠ [] := by
      obtain ⟨c, n', hn⟩ := List.exists_cons_of_ne_nil (h n List.mem_cons_self).1
      rw [hn]
      cases names with
      | nil => simp
      | cons m names => simp [List.intercalate_cons_cons]
    rw [if_neg hne, List.splitOn_intercalate ':' (fun l hl => (h l hl).2) (by simp)]

/-- The names that reach the preloader. -/
def handedNames (comp : CompGlobals) : List Str :=
  if comp.cliDesktopNamesExclusive then splitColon (List.intercalate ":".toList comp.cliDesktopNames)
  else if comp.desktopNames ≠ [comp.binName] then splitColon (List.intercalate ":".toList comp.desktopNames)
  else []

section
variable {host : Host} {binPath : Str} {comp : CompGlobals} {input : ResolveInput} {m : Meaning}

theorem prepareWords_eq : prepareWords comp binPath = desktopArgs (buildDropins comp binPath) ++
    "--".toList :: comp.id :: (if isAbsolute comp.program then comp.cmdline.take 1 else []) := by
  unfold prepareWords preloaderCommand
  rw [firstIsAbsolute_buildDropins]
  cases desktopArgs (buildDropins comp binPath) with
  | nil =>
    cases isAbsolute comp.program <;> rfl
  | cons a args =>
    simp [buildDropins]

theorem parseAux_prepareWords : parseAux (prepareWords comp binPath) = some {
    desktopNames :=
      if comp.cliDesktopNamesExclusive then some (List.intercalate ":".toList comp.cliDesktopNames)
      else if comp.desktopNames ≠ [comp.binName] then some (List.intercalate ":".toList comp.desktopNames)
      else none
    desktopNamesExclusive := comp.cliDesktopNamesExclusive
    wmName := none
    wmComment := none
    wmId := comp.id
    wmCmdline := if isAbsolute comp.program then comp.cmdline.take 1 else [] } := by
  have hdash : "-eD".toList ≠ "--".toList ∧ "-eD".toList ≠ "-e".toList ∧ "-eD".toList ≠ "-D".toList := by decide
  have hdash' : "-D".toList ≠ "--".toList ∧ "-D".toList ≠ "-e".toList := by decide
  rw [prepareWords_eq, parseAux]
  unfold desktopArgs
  show parseAuxFrom none false ((if comp.cliDesktopNamesExclusive = true then _
    else if comp.desktopNames ≠ [comp.binName] then _ else _) ++ _) = _
  cases comp.cliDesktopNamesExclusive with
  | true =>
    simp only [if_true, List.cons_append, List.nil_append, parseAuxFrom, if_neg hdash.1, if_neg hdash.2.1,
      if_neg hdash.2.2]
    rfl
  | false =>
    simp only [Bool.false_eq_true, if_false]
    by_cases hnames : comp.desktopNames ≠ [comp.binName]
    · simp only [if_pos hnames, List.cons_append, List.nil_append, parseAuxFrom, if_neg hdash'.1, if_neg hdash'.2,
        if_true]
      rfl
    · simp only [if_neg hnames, List.nil_append, parseAuxFrom, if_true]

/-- The preloader resolves the same word as the service, with the names it is handed. -/
theorem runAux_prepare : runAux host [] (prepareWords comp binPath) = some ((meaning host (unitWord comp)).map
    (compOf ⟨[unitWord comp], handedNames comp, comp.cliDesktopNamesExclusive, none, none, []⟩)) := by
  have hcmdline : ∀ names exclusive, auxCmdline ⟨names, exclusive, none, none, comp.id,
      if isAbsolute comp.program then comp.cmdline.take 1 else []⟩ = [unitWord comp] := by
    intro names exclusive
    unfold unitWord
    cases habs : isAbsolute comp.program with
    | true =>
      have hne := ne_nil_of_isAbsolute habs
      unfold CompGlobals.program at hne ⊢
      cases hcmd : comp.cmdline with
      | nil => exact absurd (by rw [hcmd]; rfl) hne
      | cons w ws =>
        rw [hcmd] at hne
        have hw : w ≠ [] := hne
        simp [auxCmdline, hw]
    | false => rfl
  have hnames : splitColon ((if comp.cliDesktopNamesExclusive then
      some (List.intercalate ":".toList comp.cliDesktopNames)
      else if comp.desktopNames ≠ [comp.binName] then some (List.intercalate ":".toList comp.desktopNames)
      else none).getD []) = handedNames comp := by
    unfold handedNames
    split
    · rfl
    split <;> rfl
  rw [runAux, parseAux_prepareWords, Option.map_some, resolveAux, hcmdline, hnames]
  exact congrArg some (resolve_eq _ rfl)

/-! ## The names of the preloader -/

/-- The preloader has the names that `start` has resolved, in that order. -/
def SeesDesktopNames (host : Host) (comp : CompGlobals) (binPath : Str) : Prop :=
  ∃ comp', runAux host [] (prepareWords comp binPath) = some (.ok comp') ∧ comp'.desktopNames = comp.desktopNames

/-- What the word of the unit stands for has no names of its own to add. -/
def AddsNothing (comp : CompGlobals) (m : Meaning) : Prop :=
  comp.cliDesktopNamesExclusive = true ∨ (m.desktopNames ⊆ comp.desktopNames ∧
    (comp.desktopNames = [comp.binName] → m.desktopNames = [] → fileBasename (m.words.headD []) = comp.binName))

/-- Found by its id and without an action, if it is an entry. -/
def PlainArg (host : Host) (arg0 : Str) : Prop :=
  ∀ main, MainArg.parse host arg0 = .ok main → main.entryId ≠ none → main.path = none ∧ main.entryAction = none

/-- An absolute program of an entry, if it is taken for an entry itself, stands for one that adds nothing. -/
def NamesSurvive (host : Host) (comp : CompGlobals) : Prop :=
  isAbsolute comp.program = true → isEntryArg comp.program = true →
    ∃ m, meaning host comp.program = .ok m ∧ AddsNothing comp m

/-- The names of a compositor, by its options. -/
theorem desktopNames_compOf : ((compOf input m).cliDesktopNamesExclusive = true →
      (compOf input m).desktopNames = (compOf input m).cliDesktopNames.eraseDups) ∧
    ((compOf input m).cliDesktopNamesExclusive = false → ∃ names, names ≠ [] ∧
      (compOf input m).desktopNames = names.eraseDups ∧ m.desktopNames ⊆ names) := by
  unfold compOf
  simp only [mergeDesktopNames]
  constructor
  · intro hexclusive
    rw [if_pos hexclusive, dedupPreserving_eq]
  · intro hexclusive
    rw [if_neg (by rw [hexclusive]; simp)]
    split
    · rename_i hnone
      refine ⟨_, by simp, dedupPreserving_eq _, ?_⟩
      rw [(List.append_eq_nil_iff.1 hnone).2]
      simp
    · rename_i hsome
      exact ⟨_, hsome, dedupPreserving_eq _, List.subset_append_right _ _⟩

theorem sees_iff_addsNothing (hcolon : ∀ n ∈ comp.desktopNames, n ≠ [] ∧ ':' ∉ n)
    (hexclusive : comp.cliDesktopNamesExclusive = true → comp.desktopNames = comp.cliDesktopNames.eraseDups)
    (hmerged : comp.cliDesktopNamesExclusive = false → ∃ names, names ≠ [] ∧ comp.desktopNames = names.eraseDups)
    (hwords : m.words ≠ []) :
    (compOf ⟨[unitWord comp], handedNames comp, comp.cliDesktopNamesExclusive, none, none, []⟩ m).desktopNames =
      comp.desktopNames ↔ AddsNothing comp m := by
  obtain ⟨w, ws, hwords⟩ := List.exists_cons_of_ne_nil hwords
  unfold compOf mergeDesktopNames handedNames AddsNothing
  simp only [hwords, List.cons_append, List.head?_cons, Option.getD_some, List.headD_cons]
  cases hex : comp.cliDesktopNamesExclusive with
  | true =>
    have hnames := hexclusive hex
    refine iff_of_true ?_ (Or.inl rfl)
    rw [hnames] at hcolon
    rw [if_pos rfl, if_pos rfl, splitColon_intercalate fun n hn => hcolon n (List.mem_eraseDups.2 hn), hnames,
      dedupPreserving_eq]
  | false =>
    obtain ⟨names, hne, hnames⟩ := hmerged hex
    have hself : comp.desktopNames.eraseDups = comp.desktopNames := by
      rw [hnames, eraseDups_eraseDups (Nat.le_refl _)]
    have hsome : comp.desktopNames ≠ [] := by
      obtain ⟨n, hn⟩ := List.exists_mem_of_ne_nil _ hne
      exact List.ne_nil_of_mem (hnames ▸ List.mem_eraseDups.2 hn)
    simp only [Bool.false_eq_true, if_false, false_or, List.nil_append]
    by_cases hbin : comp.desktopNames = [comp.binName]
    · rw [if_neg (not_not_intro hbin), List.nil_append, dedupPreserving_eq, hbin, eraseDups_eq_singleton_iff]
      by_cases hown : m.desktopNames = []
      · rw [if_pos hown, hown]
        simp
      · rw [if_neg hown]
        simp [hown]
    · rw [if_pos hbin, splitColon_intercalate hcolon, if_neg (by simp [hsome]), dedupPreserving_eq]
      have hadds := eraseDups_append_eq_iff (v := comp.desktopNames) (w := m.desktopNames)
      rw [hself] at hadds
      rw [hadds]
      simp [hbin]

theorem seesDesktopNames_iff (hcolon : ∀ n ∈ (compOf input m).desktopNames, n ≠ [] ∧ ':' ∉ n) :
    SeesDesktopNames host (compOf input m) binPath ↔
      ∃ m', meaning host (unitWord (compOf input m)) = .ok m' ∧ AddsNothing (compOf input m) m' := by
  unfold SeesDesktopNames
  rw [runAux_prepare]
  cases hm : meaning host (unitWord (compOf input m)) with
  | error e => exact iff_of_false (by rintro ⟨_, h, -⟩; cases h) (by rintro ⟨_, h, -⟩; cases h)
  | ok m' =>
    obtain ⟨w, ws, hwords, -⟩ := words_of_meaning hm
    have hsees := sees_iff_addsNothing hcolon desktopNames_compOf.1
      (fun hex => (desktopNames_compOf.2 hex).imp fun _ h => ⟨h.1, h.2.1⟩) (m := m') (by simp [hwords])
    constructor
    · rintro ⟨comp', h, hnames⟩
      obtain rfl := Except.ok.inj (Option.some.inj h)
      exact ⟨m', rfl, hsees.1 hnames⟩
    · rintro ⟨m₂, h, hadds⟩
      obtain rfl := Except.ok.inj h
      exact ⟨_, rfl, hsees.2 hadds⟩

/-! ## Plain arguments -/

theorem isEntryId_of_parse {arg id : Str} {main : MainArg} (harg : isEntryArg arg = true)
    (h : MainArg.parse host arg = .ok main) (hpath : main.path = none) (hid : main.entryId = some id) :
    isEntryId id = true := by
  unfold MainArg.parse at h
  rw [if_pos harg] at h
  cases hsplit : splitAction arg with
  | error e =>
    rw [hsplit] at h
    cases h
  | ok p =>
    rw [hsplit] at h
    dsimp only [bind, Except.bind] at h
    split at h
    · cases h
      cases hpath
    · split at h
      · rename_i hentry
        cases h
        obtain rfl := Option.some.inj hid
        exact hentry
      · cases h

/-- A plain entry argument stands for what its id does. -/
theorem meaning_of_plain {arg : Str} (harg : isEntryArg arg = true) (hplain : PlainArg host arg)
    (h : meaning host arg = .ok m) : meaning host m.id = .ok m := by
  obtain ⟨main, e, hparse, hid, hentry⟩ := exists_entry harg h
  obtain ⟨hpath, haction⟩ := hplain main hparse (by rw [hid]; simp)
  obtain ⟨hsuffix, hcolon, hslash⟩ := meaning_id harg h
  have hself := parse_id host hsuffix hcolon hslash
  rw [isEntryId_of_parse harg hparse hpath hid, if_pos rfl] at hself
  obtain ⟨entryId, action, executable, path⟩ := main
  obtain rfl : path = none := hpath
  obtain rfl : action = none := haction
  obtain rfl : entryId = some m.id := hid
  obtain ⟨hload, hcheck, hexec, hwm, hnames, hname, hcomment⟩ := hentry
  exact (meaning_entry hself rfl).2
    ⟨rfl, e, loadEntry_id.2 (loadEntry_id.1 hload), hcheck, hexec, hwm, hnames, hname, hcomment⟩

/-- **The preloader** has the desktop names of `start` exactly in this case. -/
theorem sees_desktop_names_iff (h : resolve host input = .ok comp) (hplain : PlainArg host (input.wmCmdline.headD []))
    (hcolon : ∀ n ∈ comp.desktopNames, n ≠ [] ∧ ':' ∉ n) (hbase : isWmId (fileBasename comp.program) = true) :
    SeesDesktopNames host comp binPath ↔ NamesSurvive host comp := by
  obtain ⟨m, hm, rfl, -⟩ := exists_meaning h
  obtain ⟨w, ws, hwords, -⟩ := words_of_meaning hm
  have hprogram : (compOf input m).program = w := by simp [CompGlobals.program, compOf, hwords]
  have hbin : (compOf input m).binName = fileBasename w := by simp [compOf, hwords]
  rw [seesDesktopNames_iff hcolon]
  unfold NamesSurvive
  rw [hprogram] at hbase ⊢
  unfold unitWord
  rw [hprogram]
  cases habs : isAbsolute w with
  | true =>
    rw [if_pos rfl, forall_prop_of_true rfl]
    cases hentry : isEntryArg w with
    | true => rw [forall_prop_of_true rfl]
    | false =>
      refine iff_of_true ⟨_, (meaning_executable hentry).2 ⟨hbase, rfl⟩, Or.inr ⟨List.nil_subset _, fun _ _ => ?_⟩⟩
        (by simp)
      rw [hbin]
      rfl
  | false =>
    refine iff_of_true ?_ (by simp)
    rw [if_neg (by simp)]
    generalize input.wmCmdline.headD [] = arg0 at hm hplain
    cases harg : isEntryArg arg0 with
    | true =>
      refine ⟨m, meaning_of_plain harg hplain hm, ?_⟩
      unfold AddsNothing
      cases hex : (compOf input m).cliDesktopNamesExclusive with
      | true => exact Or.inl rfl
      | false =>
        obtain ⟨names, -, hnames, hsub⟩ := desktopNames_compOf.2 hex
        refine Or.inr ⟨fun n hn => ?_, fun _ _ => ?_⟩
        · rw [hnames]
          exact List.mem_eraseDups.2 (hsub hn)
        · rw [hbin, hwords]
          rfl
    | false =>
      obtain ⟨hwm, rfl⟩ := (meaning_executable harg).1 hm
      obtain ⟨rfl, -⟩ := List.cons.inj hwords
      refine ⟨_, meaning_fileBasename host harg hwm, Or.inr ⟨List.nil_subset _, fun _ _ => ?_⟩⟩
      rw [hbin]
      exact fileBasename_fileBasename arg0

end

theorem sees_desktop_names_iff_sway : ∃ comp, resolve bareHost (inputOf "sway".toList) = .ok comp ∧
    SeesDesktopNames bareHost comp "/usr/bin/wsmr".toList := by
  have hentry : isEntryArg "sway".toList = false := by decide
  have hid : isWmId (fileBasename "sway".toList) = true := by decide
  have hcolon : fileBasename "sway".toList ≠ [] ∧ ':' ∉ fileBasename "sway".toList := by decide
  generalize "sway".toList = word at *
  have h := resolve_executable word hentry hid
  refine ⟨_, h, (sees_desktop_names_iff h (fun main hparse hne => ?_) ?_ ?_).2 fun _ he => ?_⟩
  · exact absurd (parse_executable hentry hparse) hne
  · simpa [compOf, mergeDesktopNames, inputOf, dedupPreserving] using hcolon
  · exact hid
  · exact absurd (hentry.symm.trans he) (by simp)

/-! ## A program that is called like an entry -/

/-- A host whose session entry runs a program that is called like an entry. -/
def nestedHost : Host where
  env name := if name = "XDG_DATA_HOME".toList then some "/d".toList else none
  readFile path :=
    if path = "/d/wayland-sessions/foo.desktop".toList then
      some "[Desktop Entry]\nType=Application\nName=Foo\nExec=/opt/x.desktop\n".toList
    else none
  isExecutable path := path = "/opt/x.desktop".toList
  dir path := if path = "/d/wayland-sessions".toList then some (some [.file "foo.desktop".toList]) else none

theorem findEntry_nested : findEntry nestedHost "wayland-sessions".toList "foo.desktop".toList =
    (readEntry nestedHost "/d/wayland-sessions/foo.desktop".toList).map some := by
  have hhome : nestedHost.dataHome = "/d".toList := by decide
  have hjoin : pathJoin "/d".toList "wayland-sessions".toList = "/d/wayland-sessions".toList := by decide
  have hdir : nestedHost.dir "/d/wayland-sessions".toList = some (some [.file "foo.desktop".toList]) := by
    unfold nestedHost
    dsimp only
    exact if_pos rfl
  have hfile : (isDesktopFile "foo.desktop".toList &&
      decide (entryIdOf (pathJoin [] "foo.desktop".toList) = "foo.desktop".toList)) = true := by decide
  have hpath : pathJoin "/d/wayland-sessions".toList "foo.desktop".toList =
      "/d/wayland-sessions/foo.desktop".toList := by
    decide
  rw [findEntry, Host.dataPaths, hhome, findFirst, findIn, hjoin, hdir]
  dsimp only
  rw [walk, if_pos hfile, hpath]
  cases hentry : readEntry nestedHost "/d/wayland-sessions/foo.desktop".toList with
  | error e => rfl
  | ok e => rfl

theorem nested_entry : ((readEntry nestedHost "/d/wayland-sessions/foo.desktop".toList).toOption.map fun e =>
    ((e.checkBasic nestedHost none).toOption, (e.exec none).toOption, splitList (e.get "DesktopNames".toList none))) =
      some (some (), some ["/opt/x.desktop".toList], []) := by
  unfold nestedHost
  repeat rw [String.toList_ofList]
  decide

theorem eq_ok_of_toOption {ε α : Type} {x : Except ε α} {a : α} (h : x.toOption = some a) : x = .ok a := by
  cases x with
  | error e => cases h
  | ok b => exact congrArg Except.ok (Option.some.inj h)

theorem meaning_nested : ∃ m, meaning nestedHost "foo.desktop".toList = .ok m ∧
    m.words = ["/opt/x.desktop".toList] ∧ m.desktopNames = [] := by
  have hparse : MainArg.parse nestedHost "foo.desktop".toList = .ok ⟨some "foo.desktop".toList, none, none, none⟩ := by
    rw [parse_id _ (by decide) (by decide) (by decide), if_pos (by decide)]
  have hwm : isWmId "foo.desktop".toList = true := by decide
  have hentry := nested_entry
  have hfind := findEntry_nested
  generalize "foo.desktop".toList = id at hparse hwm hfind ⊢
  cases hread : readEntry nestedHost "/d/wayland-sessions/foo.desktop".toList with
  | error e => rw [hread] at hentry; cases hentry
  | ok e =>
    rw [hread] at hentry hfind
    obtain ⟨hcheck, hrest⟩ := Prod.mk.inj (Option.some.inj hentry)
    obtain ⟨hexec, hnames⟩ := Prod.mk.inj hrest
    refine ⟨⟨id, ["/opt/x.desktop".toList], [], e.getLocalized nestedHost "Name".toList none,
      e.getLocalized nestedHost "Comment".toList none⟩, (meaning_entry hparse rfl).2 ⟨rfl, e, ?_⟩, rfl, rfl⟩
    exact ⟨loadEntry_id.2 hfind, eq_ok_of_toOption hcheck, eq_ok_of_toOption hexec, hwm, hnames.symm,
      rfl, rfl⟩

/-- The preloader takes the program `/opt/x.desktop` of an entry for an entry, which it cannot read. -/
theorem nested_program_unresolved : ∃ comp, resolve nestedHost (inputOf "foo.desktop".toList) = .ok comp ∧
    PlainArg nestedHost "foo.desktop".toList ∧ (∀ n ∈ comp.desktopNames, n ≠ [] ∧ ':' ∉ n) ∧
    isWmId (fileBasename comp.program) = true ∧ ¬ SeesDesktopNames nestedHost comp "/usr/bin/wsmr".toList := by
  have hplain : PlainArg nestedHost "foo.desktop".toList := fun main h hne => by
    rw [parse_id _ (by decide) (by decide) (by decide), if_pos (by decide)] at h
    cases h
    exact ⟨rfl, rfl⟩
  have habs : isAbsolute "/opt/x.desktop".toList = true := by decide
  have hwm : isWmId (fileBasename "/opt/x.desktop".toList) = true := by decide
  have hnames : dedupPreserving [fileBasename "/opt/x.desktop".toList] = [fileBasename "/opt/x.desktop".toList] := rfl
  have hcolon : fileBasename "/opt/x.desktop".toList ≠ [] ∧ ':' ∉ fileBasename "/opt/x.desktop".toList := by
    decide
  have hlost : (meaning nestedHost "/opt/x.desktop".toList).toOption.isNone = true := by decide
  obtain ⟨m, hm, hwords, hown⟩ := meaning_nested
  generalize "foo.desktop".toList = arg0 at *
  generalize "/opt/x.desktop".toList = program at *
  have hprogram : (compOf (inputOf arg0) m).program = program := by simp [CompGlobals.program, compOf, hwords]
  have hmerged : (compOf (inputOf arg0) m).desktopNames = [fileBasename program] := by
    simp [compOf, mergeDesktopNames, inputOf, hwords, hown, hnames]
  have hcolon' : ∀ n ∈ (compOf (inputOf arg0) m).desktopNames, n ≠ [] ∧ ':' ∉ n := by
    rw [hmerged]
    simpa using hcolon
  refine ⟨compOf (inputOf arg0) m, ?_, hplain, hcolon', by rw [hprogram]; exact hwm, fun hsees => ?_⟩
  · rw [resolve_eq arg0 rfl, hm]
    rfl
  · obtain ⟨m', hm', -⟩ := (seesDesktopNames_iff hcolon').1 hsees
    rw [unitWord, hprogram, habs, if_pos rfl] at hm'
    rw [hm'] at hlost
    cases hlost

end Wsmr
