import Wsmr.Units.ExecStart

/-!
# Programs of the rendered units

`render` puts the path of the program into the lines of the units as it is, and goes on to replace other
placeholders, in the path as well. What the service manager then takes for the program is the path itself
when it is changed neither there nor in reading (`programs_intended_iff`).
-/

namespace Wsmr

open Text

/-! ## Rendered lines -/

theorem placeholders : "@BIN_PATH@".toList = '@' :: "BIN_PATH@".toList ∧
    "@WAITPID_BIN@".toList = '@' :: "WAITPID_BIN@".toList ∧ "@BIN_NAME@".toList = '@' :: "BIN_NAME@".toList := by
  decide

/-- Placeholders do not reach over this character. -/
def Separates (c : Char) : Prop :=
  c ∉ "@BIN_PATH@".toList ∧ c ∉ "@WAITPID_BIN@".toList ∧ c ∉ "@BIN_NAME@".toList

theorem placeholders_ne_nil :
    "@BIN_PATH@".toList ≠ [] ∧ "@WAITPID_BIN@".toList ≠ [] ∧ "@BIN_NAME@".toList ≠ [] := by
  obtain ⟨h1, h2, h3⟩ := placeholders
  rw [h1, h2, h3]
  exact ⟨List.cons_ne_nil _ _, List.cons_ne_nil _ _, List.cons_ne_nil _ _⟩

theorem render_append {c : Char} (hc : Separates c) (s t : Str) (ctx : RenderCtx) :
    render (s ++ c :: t) ctx = render s ctx ++ c :: render t ctx := by
  obtain ⟨h1, h2, h3⟩ := placeholders_ne_nil
  unfold render
  rw [replace_append h1 hc.1, replace_append h2 hc.2.1, replace_append h3 hc.2.2]

/-- **A rendered file** consists of the rendered lines. -/
theorem render_unlines (ctx : RenderCtx) : ∀ ls : List Str,
    render (unlines ls) ctx = unlines (ls.map fun l => render l ctx)
  | [] => rfl
  | l :: ls => by
    have hnewline : Separates '\n' := by
      unfold Separates
      decide
    have ih := render_unlines ctx ls
    rw [unlines_cons, List.append_assoc, List.singleton_append, render_append hnewline, ih, List.map_cons,
      unlines_cons, List.append_assoc, List.singleton_append]

theorem render_eq_self {s : Str} (h : '@' ∉ s) (ctx : RenderCtx) : render s ctx = s := by
  obtain ⟨h1, h2, h3⟩ := placeholders
  unfold render
  rw [h1, h2, h3, replace_eq_self h, replace_eq_self h, replace_eq_self h]

/-- What stands in a unit for the path. -/
def insertedPath (ctx : RenderCtx) : Str :=
  replace "@BIN_NAME@".toList ctx.binName (replace "@WAITPID_BIN@".toList ctx.waitpidBin ctx.binPath)

theorem render_path (ctx : RenderCtx) : render "@BIN_PATH@".toList ctx = insertedPath ctx := by
  have hpath := @replace_pattern "@BIN_PATH@".toList ctx.binPath placeholders_ne_nil.1 []
  rw [List.append_nil, show replace "@BIN_PATH@".toList ctx.binPath [] = [] from rfl, List.append_nil] at hpath
  unfold render insertedPath
  rw [hpath]

theorem render_program {rest : Str} (hrest : '@' ∉ rest) (ctx : RenderCtx) :
    render ("ExecStart=@BIN_PATH@".toList ++ ' ' :: rest) ctx =
      "ExecStart=".toList ++ (insertedPath ctx ++ ' ' :: rest) := by
  have hsplit : "ExecStart=@BIN_PATH@".toList = "ExecStart".toList ++ '=' :: "@BIN_PATH@".toList := by decide
  have hkey : "ExecStart=".toList = "ExecStart".toList ++ ['='] := by decide
  have hexec : '@' ∉ "ExecStart".toList := by decide
  have heq : Separates '=' := by
    unfold Separates
    decide
  have hblank : Separates ' ' := by
    unfold Separates
    decide
  rw [hsplit, hkey, List.append_assoc, List.cons_append, render_append heq, render_append hblank, render_path,
    render_eq_self hexec, render_eq_self hrest, List.append_assoc]
  rfl

/-! ## The lines of the units -/

/-- What follows the path in a line that starts the program. -/
structure ProgramLine (rest : Str) : Prop where
  blank : rest.head? = some ' '
  noPlaceholder : '@' ∉ rest
  readable : (ExecLine.words rest.tail).isSome = true

instance : DecidablePred ProgramLine := fun rest =>
  decidable_of_iff (rest.head? = some ' ' ∧ '@' ∉ rest ∧ (ExecLine.words rest.tail).isSome = true)
    ⟨fun h => ⟨h.1, h.2.1, h.2.2⟩, fun h => ⟨h.blank, h.noPlaceholder, h.readable⟩⟩

def LineOf (key l : Str) : Prop := '\n' ∉ l ∧ ∀ rest ∈ stripPrefix key l, ProgramLine rest

instance (key : Str) : DecidablePred (LineOf key) := fun l =>
  inferInstanceAs (Decidable ('\n' ∉ l ∧ ∀ rest ∈ stripPrefix key l, ProgramLine rest))

set_option maxRecDepth 2000 in
theorem lines_graph : ∀ t ∈ graph, ∃ ls : List String, t.body = body ls ∧
    ∀ s ∈ ls, LineOf "ExecStart=@BIN_PATH@".toList s.toList := by
  rw [show "ExecStart=@BIN_PATH@".toList = _ from String.toList_ofList]
  unfold graph
  simp only [List.forall_mem_cons]
  refine ⟨⟨_, rfl, ?_⟩, ⟨_, rfl, ?_⟩, ⟨_, rfl, ?_⟩, ⟨_, rfl, ?_⟩, ⟨_, rfl, ?_⟩, ⟨_, rfl, ?_⟩, ⟨_, rfl, ?_⟩,
    ⟨_, rfl, ?_⟩, ⟨_, rfl, ?_⟩, ⟨_, rfl, ?_⟩, ⟨_, rfl, ?_⟩, ⟨_, rfl, ?_⟩, ⟨_, rfl, ?_⟩, List.forall_mem_nil _⟩
  all_goals
    repeat' refine forall_cons_ofList (P := LineOf _) (by decide) ?_
    exact List.forall_mem_nil _

/-- The lines that start the program, in all of the units. -/
theorem exists_rest {t : UnitTemplate} (ht : t ∈ graph) {l : Str} (hl : l ∈ t.body.splitOn '\n')
    (hkey : "ExecStart=@BIN_PATH@".toList <+: l) : ∃ rest, l = "ExecStart=@BIN_PATH@".toList ++ ' ' :: rest ∧
      '@' ∉ rest ∧ '\n' ∉ rest ∧ ∃ ws, ExecLine.words rest = some ws := by
  obtain ⟨ls, hbody, hlines⟩ := lines_graph t ht
  have hnewline : ∀ k ∈ ls.map String.toList, '\n' ∉ k := by
    simpa using fun s hs => (hlines s hs).1
  rw [hbody, body, unlines, splitOn_terminated hnewline, List.mem_append, List.mem_map] at hl
  rcases hl with ⟨s, hs, rfl⟩ | hl
  · obtain ⟨rest, hrest⟩ := hkey
    obtain ⟨hline, hprogram⟩ := hlines s hs
    obtain ⟨hblank, hnone, hreadable⟩ := hprogram rest (stripPrefix_eq_some.2 hrest.symm)
    obtain ⟨rest, rfl⟩ := List.head?_eq_some_iff.1 hblank
    rw [← hrest] at hline ⊢
    have hat : '@' ∉ rest := fun h => hnone (List.mem_cons_of_mem _ h)
    have hend : '\n' ∉ rest := fun h => hline (List.mem_append_right _ (List.mem_cons_of_mem _ h))
    exact ⟨rest, rfl, hat, hend, Option.isSome_iff_exists.1 hreadable⟩
  · rw [List.mem_singleton.1 hl, List.prefix_nil] at hkey
    exact absurd hkey (by decide)

theorem mem_splitOn_unlines {l : Str} (hl : '\n' ∉ l) : ∀ {ls : List Str}, l ∈ ls → l ∈ (unlines ls).splitOn '\n'
  | k :: ls, h => by
    rw [unlines_cons, List.append_assoc, List.singleton_append, List.splitOn_append_cons_self, List.mem_append]
    rcases List.mem_cons.1 h with rfl | h
    · rw [List.splitOn_eq_singleton hl]
      exact Or.inl List.mem_cons_self
    · exact Or.inr (mem_splitOn_unlines hl h)

/-- A line without quotes. -/
theorem exists_waitenv : ∃ t ∈ graph, "ExecStart=@BIN_PATH@ aux waitenv".toList ∈ t.body.splitOn '\n' := by
  have hlen : 7 < graph.length := by decide
  refine ⟨graph[7], List.getElem_mem _, mem_splitOn_unlines (by decide) ?_⟩
  exact List.mem_map_of_mem (List.getElem_mem (n := 14) (by decide))

/-! ## Programs -/

/-- A value ends with its line. -/
def firstLine (s : Str) : Str := s.takeWhile (· ≠ '\n')

theorem firstLine_eq_self : ∀ {s : Str}, '\n' ∉ s → firstLine s = s
  | [], _ => rfl
  | c :: s, h => by
    rw [List.mem_cons, not_or] at h
    have ih := firstLine_eq_self h.2
    unfold firstLine at ih ⊢
    rw [List.takeWhile_cons_of_pos (by simpa using Ne.symm h.1), ih]

theorem firstLine_cut : ∀ {s : Str}, '\n' ∉ s → ∀ t, firstLine (s ++ '\n' :: t) = s
  | [], _, t => List.takeWhile_cons_of_neg (by simp)
  | c :: s, h, t => by
    rw [List.mem_cons, not_or] at h
    have ih := firstLine_cut h.2 t
    unfold firstLine at ih ⊢
    rw [List.cons_append, List.takeWhile_cons_of_pos (by simpa using Ne.symm h.1), ih]

theorem firstLine_append {s : Str} (h : '\n' ∈ s) (t : Str) : firstLine (s ++ t) = firstLine s := by
  obtain ⟨a, b, rfl, ha⟩ := List.eq_append_cons_of_mem h
  rw [List.append_assoc, List.cons_append, firstLine_cut ha, firstLine_cut ha]

theorem length_firstLine_lt {s : Str} (h : '\n' ∈ s) : (firstLine s).length < s.length := by
  obtain ⟨a, b, rfl, ha⟩ := List.eq_append_cons_of_mem h
  rw [firstLine_cut ha, List.length_append, List.length_cons]
  omega

/-- The manager reads the inserted text as the path. -/
def ReadsPath (inserted path : Str) : Prop :=
  ∃ raw more, ExecLine.words (firstLine inserted) = some (raw :: more) ∧ ∀ m : ExecLine.Manager, m.expand raw = path

theorem program_eq {line raw : Str} {more : List Str} (h : ExecLine.words line = some (raw :: more))
    (m : ExecLine.Manager) : m.program line = some (m.expand raw) := by
  rw [ExecLine.Manager.program, ExecLine.Manager.read, h]
  rfl

theorem program_of_readsPath {inserted path rest : Str} {ws : List Str} (h : ReadsPath inserted path)
    (hrest : '\n' ∉ rest) (hws : ExecLine.words rest = some ws) (m : ExecLine.Manager) :
    m.program (firstLine (inserted ++ ' ' :: rest)) = some path := by
  obtain ⟨raw, more, hwords, hexpand⟩ := h
  have hline : ∃ more', ExecLine.words (firstLine (inserted ++ ' ' :: rest)) = some (raw :: more') := by
    by_cases hnewline : '\n' ∈ inserted
    · rw [firstLine_append hnewline]
      exact ⟨more, hwords⟩
    · rw [firstLine_eq_self hnewline] at hwords
      rw [firstLine_eq_self (by simp [hnewline, hrest]), ExecLine.words_append_blank hwords, hws]
      exact ⟨more ++ ws, rfl⟩
  obtain ⟨more', hline⟩ := hline
  rw [program_eq hline, hexpand]

/-- What comes after the path does not change its first word. -/
theorem words_of_firstLine {inserted rest : Str} {ws : List Str}
    (hrest : '\\' ∉ rest ∧ '\'' ∉ rest ∧ '"' ∉ rest ∧ '\n' ∉ rest)
    (hempty : ExecLine.words (firstLine inserted) ≠ some [])
    (h : ExecLine.words (firstLine (inserted ++ ' ' :: rest)) = some ws) :
    ∃ raw more more', ExecLine.words (firstLine inserted) = some (raw :: more) ∧ ws = raw :: more' := by
  by_cases hnewline : '\n' ∈ inserted
  · rw [firstLine_append hnewline] at h
    cases ws with
    | nil => exact absurd h hempty
    | cons raw more => exact ⟨raw, more, more, h, rfl⟩
  · rw [firstLine_eq_self hnewline] at hempty ⊢
    rw [firstLine_eq_self (by simp [hnewline, hrest.2.2.2])] at h
    obtain ⟨ws', hws'⟩ := ExecLine.words_of_append_blank ⟨hrest.1, hrest.2.1, hrest.2.2.1⟩ h
    cases ws' with
    | nil => exact absurd hws' hempty
    | cons raw more =>
      rw [ExecLine.words_append_blank hws'] at h
      obtain ⟨after, -, rfl⟩ := Option.map_eq_some_iff.1 h
      exact ⟨raw, more, more ++ after, hws', rfl⟩

theorem readsPath_of_program {inserted path rest : Str}
    (hrest : '\\' ∉ rest ∧ '\'' ∉ rest ∧ '"' ∉ rest ∧ '\n' ∉ rest)
    (hempty : ExecLine.words (firstLine inserted) ≠ some [])
    (h : ∀ m : ExecLine.Manager, m.program (firstLine (inserted ++ ' ' :: rest)) = some path) :
    ReadsPath inserted path := by
  cases hwords : ExecLine.words (firstLine (inserted ++ ' ' :: rest)) with
  | none =>
    have hnone := h (ExecLine.mute [])
    rw [ExecLine.Manager.program, ExecLine.Manager.read, hwords] at hnone
    cases hnone
  | some ws =>
    obtain ⟨raw, more, more', hinserted, rfl⟩ := words_of_firstLine hrest hempty hwords
    refine ⟨raw, more, hinserted, fun m => ?_⟩
    exact Option.some.inj ((program_eq hwords m).symm.trans (h m))

/-- A path that nothing was replaced in. -/
theorem readsPath_self_iff {path : Str} :
    ReadsPath path path ↔ path ≠ [] ∧ ExecLine.Bare path ∧ ExecLine.Inert path := by
  rw [← ExecLine.reads_self_iff]
  unfold ReadsPath
  by_cases hnewline : '\n' ∈ path
  · constructor
    · rintro ⟨raw, more, hwords, hexpand⟩
      have hle := (ExecLine.length_of_reads hwords hexpand).2
      have hlt := length_firstLine_lt hnewline
      omega
    · intro h
      obtain ⟨-, hbare, -⟩ := ExecLine.reads_self_iff.1 h
      exact absurd (hbare.plain _ hnewline).1 (by decide)
  · rw [firstLine_eq_self hnewline]

/-- The program of each line that starts it, as the manager reads the rendered line, is the path. -/
def ProgramsIntended (ctx : RenderCtx) : Prop :=
  ∀ t ∈ graph, ∀ l ∈ t.body.splitOn '\n', "ExecStart=@BIN_PATH@".toList <+: l → ∀ m : ExecLine.Manager,
    ((stripPrefix "ExecStart=".toList (render l ctx)).bind fun value => m.program (firstLine value)) = some ctx.binPath

/-- The path is left alone by the other placeholders and by the manager; or what was made of it is read as the path
again. -/
def PathSurvives (ctx : RenderCtx) : Prop :=
  if insertedPath ctx = ctx.binPath then ctx.binPath ≠ [] ∧ ExecLine.Bare ctx.binPath ∧ ExecLine.Inert ctx.binPath
  else ReadsPath (insertedPath ctx) ctx.binPath

theorem pathSurvives_iff {ctx : RenderCtx} : PathSurvives ctx ↔ ReadsPath (insertedPath ctx) ctx.binPath := by
  unfold PathSurvives
  split
  · rename_i hsame
    rw [hsame, readsPath_self_iff]
  · rfl

/-- Without a path, the manager would take the next word. -/
theorem inserted_not_blank {ctx : RenderCtx}
    (h : ∀ m : ExecLine.Manager,
      m.program (firstLine (insertedPath ctx ++ ' ' :: "aux waitenv".toList)) = some ctx.binPath) :
    ExecLine.words (firstLine (insertedPath ctx)) ≠ some [] := by
  intro hnone
  have hm := h (ExecLine.mute [])
  by_cases hnewline : '\n' ∈ insertedPath ctx
  · rw [firstLine_append hnewline, ExecLine.Manager.program, ExecLine.Manager.read, hnone] at hm
    cases hm
  · have hrest : '\n' ∉ "aux waitenv".toList := by decide
    have hwords : ExecLine.words "aux waitenv".toList = some ["aux".toList, "waitenv".toList] := by decide
    have haux : (ExecLine.mute []).expand "aux".toList = "aux".toList := by decide
    have hat : '@' ∉ "aux".toList := by decide
    have hread : ExecLine.words "aux".toList ≠ some [] := by decide
    rw [firstLine_eq_self hnewline] at hnone
    rw [firstLine_eq_self (by simp [hnewline])] at hm
    have hline := ExecLine.words_append_blank (t := "aux waitenv".toList) hnone
    rw [hwords] at hline
    rw [program_eq hline, haux] at hm
    have hpath : insertedPath ctx = "aux".toList := by
      obtain ⟨-, h2, h3⟩ := placeholders
      unfold insertedPath
      rw [← Option.some.inj hm, h2, h3, replace_eq_self hat, replace_eq_self hat]
    rw [hpath] at hnone
    exact hread hnone

theorem programs_intended_iff (ctx : RenderCtx) : ProgramsIntended ctx ↔ PathSurvives ctx := by
  rw [pathSurvives_iff]
  constructor
  · intro h
    obtain ⟨t, ht, hl⟩ := exists_waitenv
    have hsplit : "ExecStart=@BIN_PATH@ aux waitenv".toList =
        "ExecStart=@BIN_PATH@".toList ++ ' ' :: "aux waitenv".toList := by decide
    have hrest : '@' ∉ "aux waitenv".toList ∧ '\\' ∉ "aux waitenv".toList ∧ '\'' ∉ "aux waitenv".toList ∧
        '"' ∉ "aux waitenv".toList ∧ '\n' ∉ "aux waitenv".toList := by decide
    have hprogram : ∀ m : ExecLine.Manager,
        m.program (firstLine (insertedPath ctx ++ ' ' :: "aux waitenv".toList)) = some ctx.binPath := by
      intro m
      have hm := h t ht _ hl (hsplit ▸ List.prefix_append _ _) m
      rwa [hsplit, render_program hrest.1, stripPrefix_append] at hm
    exact readsPath_of_program hrest.2 (inserted_not_blank hprogram) hprogram
  · intro h t ht l hl hkey m
    obtain ⟨rest, rfl, hat, hnewline, ws, hws⟩ := exists_rest ht hl hkey
    rw [render_program hat, stripPrefix_append]
    exact program_of_readsPath h hnewline hws m

/-! ## All commands -/

/-- **The words of the commands** are those intended exactly when there is nothing in them that the manager reads in
its own way. -/
theorem exec_starts_intended_iff (input : DropinInput) (ctx : RenderCtx)
    (hfree : ∀ p ∈ [input.binPath] ++ input.cmdline ++ input.cliArgs ++ input.desktopNames ++ input.cliDesktopNames,
      '\n' ∉ p) :
    ((ReadAs (serviceDropin input) (serviceCommand · input) ∧
        ReadAs (preloaderDropin input) (preloaderCommand · input)) ↔
      ∀ p ∈ serviceTexts input ++ preloaderTexts input, Verbatim p) ∧
    (ProgramsIntended ctx ↔ PathSurvives ctx) := by
  refine ⟨?_, programs_intended_iff ctx⟩
  have hservice : ∀ p ∈ serviceTexts input, '\n' ∉ p := fun p hp => newline_not_mem_serviceTexts hfree hp
  have hpreloader : ∀ p ∈ preloaderTexts input, '\n' ∉ p := fun p hp => newline_not_mem_preloaderTexts hfree hp
  rw [service_readAs_iff hservice, preloader_readAs_iff hpreloader, List.forall_mem_append]

/-- `start sway -- ARG`, or `start sway ARG`. -/
def argInput (arg : Str) : DropinInput where
  id := "sway".toList
  idUnitString := "sway".toList
  binPath := "/usr/bin/wsmr".toList
  binName := "sway".toList
  name := none
  description := none
  desktopNames := ["sway".toList]
  cliDesktopNames := []
  cliDesktopNamesExclusive := false
  cmdline := ["sway".toList]
  cliArgs := [arg]

def wsmrCtx : RenderCtx := ⟨"wsmr".toList, "/usr/bin/wsmr".toList, "waitpid".toList⟩

theorem exec_starts_intended_iff_wsmr :
    (ReadAs (serviceDropin (argInput "it's a test".toList)) (serviceCommand · (argInput "it's a test".toList)) ∧
      ReadAs (preloaderDropin (argInput "it's a test".toList)) (preloaderCommand · (argInput "it's a test".toList))) ∧
    ProgramsIntended wsmrCtx := by
  obtain ⟨hdropins, hprograms⟩ := exec_starts_intended_iff (argInput "it's a test".toList) wsmrCtx (by decide)
  refine ⟨hdropins.2 ?_, hprograms.2 ?_⟩
  · have hall : ∀ p ∈ serviceTexts (argInput "it's a test".toList) ++ preloaderTexts (argInput "it's a test".toList),
        ExecLine.EscapeFree p ∧ p.getLast? ≠ some '\\' ∧ ExecLine.Inert p := by decide
    intro p hp
    obtain ⟨hesc, hlast, hinert⟩ := hall p hp
    exact ⟨⟨hesc, hlast⟩, hinert⟩
  · have hpath : insertedPath wsmrCtx = wsmrCtx.binPath := by decide
    have hplain : ∀ c ∈ wsmrCtx.binPath, isPlain c = true := forall_mem_of_all (by decide)
    unfold PathSurvives
    rw [if_pos hpath]
    exact ⟨by decide, execBare_of_plain hplain, by decide⟩

/-- The compositor is started with `100%` instead. -/
theorem percent_lost :
    ¬ ReadAs (serviceDropin (argInput "100%%".toList)) (serviceCommand · (argInput "100%%".toList)) := by
  have hread : (serviceDropin (argInput "100%%".toList)).map (fun text => (execStarts text).map (ExecLine.mute []).read) =
      some [some ["/usr/bin/wsmr".toList, "aux".toList, "exec".toList, "--".toList, [], [], "100%".toList]] := by
    decide
  have hcommand : serviceCommand [] (argInput "100%%".toList) =
      some ["/usr/bin/wsmr".toList, "aux".toList, "exec".toList, "--".toList, [], [], "100%%".toList] := by
    decide
  intro h
  obtain ⟨text, htext, hmap⟩ := h (ExecLine.mute []) _ hcommand
  rw [htext, Option.map_some, hmap] at hread
  exact absurd hread (by decide)

end Wsmr
