import Wsmr.Session.Reresolve
import Wsmr.Units.Quote

/-!
# The lines of the drop-ins

A drop-in is made of whole lines (`dropinLines`). Texts of the user go into some of them as they are, or
quoted, and quoting keeps newlines: the text has other lines than these when one of them has a newline.
-/

namespace Wsmr

open Text

/-! ## Lines of a text -/

theorem unlines_append (ls ls' : List Str) : unlines (ls ++ ls') = unlines ls ++ unlines ls' := by
  simp [unlines]

theorem unlines_cons (l : Str) (ls : List Str) : unlines (l :: ls) = l ++ ['\n'] ++ unlines ls := rfl

/-! ## What drop-ins are made of -/

/-- The texts of a description. -/
def describedBy (input : DropinInput) : List Str :=
  if (nonEmpty input.name).isSome || (nonEmpty input.description).isSome then
    (nonEmpty input.name).getD input.binName :: (nonEmpty input.description).toList
  else []

def dropinLines (what : Str) (command : Option (List Str)) (input : DropinInput) : List Str :=
  ["# injected by wsmr, do not edit".toList, "[Unit]".toList, "X-UWSMMark=".toList ++ input.id] ++
    (if describedBy input = [] then []
      else ["Description=".toList ++ what ++ " for ".toList ++ descSubstring input]) ++
    command.elim [] fun c => ["[Service]".toList, "ExecStart=".toList, "ExecStart=".toList ++ shlexJoin c]

theorem describedBy_eq_nil {input : DropinInput} : describedBy input = [] ↔
    ((nonEmpty input.name).isSome || (nonEmpty input.description).isSome) = false := by
  unfold describedBy
  cases (nonEmpty input.name).isSome || (nonEmpty input.description).isSome <;> simp

theorem header_eq (id : Str) : header id =
    unlines ["# injected by wsmr, do not edit".toList, "[Unit]".toList, "X-UWSMMark=".toList ++ id] := by
  have hhead : "# injected by wsmr, do not edit\n[Unit]\nX-UWSMMark=".toList =
      unlines ["# injected by wsmr, do not edit".toList, "[Unit]".toList] ++ "X-UWSMMark=".toList := by decide
  have hend : "\n".toList = ['\n'] := by decide
  unfold header
  generalize "# injected by wsmr, do not edit\n[Unit]\nX-UWSMMark=".toList = text at hhead ⊢
  generalize "# injected by wsmr, do not edit".toList = first at hhead ⊢
  subst hhead
  simp only [hend, unlines_cons, List.append_assoc]
  rfl

theorem descriptionLine_eq (what : Str) (input : DropinInput) : descriptionLine what input =
    unlines (if describedBy input = [] then []
      else ["Description=".toList ++ what ++ " for ".toList ++ descSubstring input]) := by
  have hend : "\n".toList = ['\n'] := by decide
  unfold descriptionLine
  rw [hend]
  cases hsome : (nonEmpty input.name).isSome || (nonEmpty input.description).isSome with
  | true =>
    rw [if_pos rfl, if_neg (by rw [describedBy_eq_nil, hsome]; simp)]
    simp [unlines]
  | false =>
    rw [if_neg (by simp), if_pos (describedBy_eq_nil.2 hsome)]
    rfl

theorem override_eq (command : Option (List Str)) : override command = unlines
    (command.elim [] fun c => ["[Service]".toList, "ExecStart=".toList, "ExecStart=".toList ++ shlexJoin c]) := by
  have hhead : "[Service]\nExecStart=\nExecStart=".toList =
      unlines ["[Service]".toList, "ExecStart=".toList] ++ "ExecStart=".toList := by decide
  have hend : "\n".toList = ['\n'] := by decide
  cases command with
  | none => rfl
  | some c =>
    unfold override execOverride
    generalize "[Service]\nExecStart=\nExecStart=".toList = text at hhead ⊢
    subst hhead
    simp only [Option.elim_some, List.append_nil, hend, unlines_cons, List.append_assoc]
    rfl

theorem dropinOf_eq_some {what text : Str} {command : Option (List Str)} {input : DropinInput}
    (h : dropinOf input (descriptionLine what input ++ override command) = some text) :
    text = unlines (dropinLines what command input) := by
  unfold dropinOf at h
  split at h
  · cases h
  · obtain rfl := Option.some.inj h
    rw [header_eq, descriptionLine_eq, override_eq, dropinLines, unlines_append, unlines_append]
    exact (List.append_assoc _ _ _).symm

/-- A drop-in that is not written has nothing to say. -/
theorem dropinOf_eq_none {what : Str} {command : Option (List Str)} {input : DropinInput}
    (h : dropinOf input (descriptionLine what input ++ override command) = none) :
    describedBy input = [] ∧ command = none := by
  unfold dropinOf at h
  split at h
  · rename_i hempty
    obtain ⟨hdesc, hcommand⟩ := List.append_eq_nil_iff.1 hempty
    rw [descriptionLine_eq] at hdesc
    rw [override_eq] at hcommand
    constructor
    · by_contra hne
      rw [if_neg hne] at hdesc
      simp [unlines] at hdesc
    · cases command with
      | none => rfl
      | some c => simp [unlines] at hcommand
  · cases h

/-! ## Newlines -/

theorem newline_mem_descSubstring {input : DropinInput} (h : describedBy input ≠ []) :
    '\n' ∈ descSubstring input ↔ ∃ t ∈ describedBy input, '\n' ∈ t := by
  have hsome := eq_true_of_ne_false fun hnone => h (describedBy_eq_nil.2 hnone)
  unfold descSubstring describedBy
  rw [mem_intercalate (by decide), if_pos hsome]

/-- No line has a newline in it when no text of the user has one. -/
theorem newline_not_mem_dropinLines {what : Str} {command : Option (List Str)} {input : DropinInput}
    (hwhat : '\n' ∉ what) (hid : '\n' ∉ input.id) : (∀ l ∈ dropinLines what command input, '\n' ∉ l) ↔
      (∀ t ∈ describedBy input, '\n' ∉ t) ∧ ∀ c, command = some c → ∀ w ∈ c, '\n' ∉ w := by
  have hfixed : '\n' ∉ "# injected by wsmr, do not edit".toList ∧ '\n' ∉ "[Unit]".toList ∧
      '\n' ∉ "X-UWSMMark=".toList ∧ '\n' ∉ "Description=".toList ∧ '\n' ∉ " for ".toList ∧
      '\n' ∉ "[Service]".toList ∧ '\n' ∉ "ExecStart=".toList := by decide
  obtain ⟨h1, h2, h3, h4, h5, h6, h7⟩ := hfixed
  unfold dropinLines
  generalize "# injected by wsmr, do not edit".toList = a1 at *
  generalize "[Unit]".toList = a2 at *
  generalize "X-UWSMMark=".toList = a3 at *
  generalize "Description=".toList = a4 at *
  generalize " for ".toList = a5 at *
  generalize "[Service]".toList = a6 at *
  generalize "ExecStart=".toList = a7 at *
  rw [List.append_assoc, List.forall_mem_append, List.forall_mem_append]
  have hhead : ∀ l ∈ [a1, a2, a3 ++ input.id], '\n' ∉ l := by simp [h1, h2, h3, hid]
  rw [and_iff_right hhead]
  refine and_congr ?_ ?_
  · by_cases hdesc : describedBy input = []
    · simp [hdesc]
    · have hiff := newline_mem_descSubstring hdesc
      simp [hdesc, h4, h5, hwhat, hiff]
  · cases command with
    | none => simp
    | some c => simp [h6, h7, newline_mem_shlexJoin]

/-- **A drop-in** is read as the lines it was made of when no text of the user has a newline. -/
theorem splitOn_dropin_iff {what : Str} (command : Option (List Str)) {input : DropinInput} (hwhat : '\n' ∉ what)
    (hid : '\n' ∉ input.id) : (∀ text, dropinOf input (descriptionLine what input ++ override command) = some text →
        text.splitOn '\n' = dropinLines what command input ++ [[]]) ↔
      (∀ t ∈ describedBy input, '\n' ∉ t) ∧ ∀ c, command = some c → ∀ w ∈ c, '\n' ∉ w := by
  rw [← newline_not_mem_dropinLines hwhat hid, ← splitOn_terminated_iff]
  cases hdropin : dropinOf input (descriptionLine what input ++ override command) with
  | none =>
    obtain ⟨hdesc, rfl⟩ := dropinOf_eq_none hdropin
    refine iff_of_true (by simp) (splitOn_terminated ((newline_not_mem_dropinLines hwhat hid).2 ?_))
    simp [hdesc]
  | some text =>
    obtain rfl := dropinOf_eq_some hdropin
    simp [unlines]

/-! ## Injection -/

/-- Both drop-ins are read as the lines they are made of. -/
structure LinesIntended (input : DropinInput) : Prop where
  preloader : ∀ text, preloaderDropin input = some text → text.splitOn '\n' =
    dropinLines "Environment preloader".toList (preloaderCommand "%I".toList input) input ++ [[]]
  service : ∀ text, serviceDropin input = some text → text.splitOn '\n' =
    dropinLines "Main service".toList (serviceCommand "%I".toList input) input ++ [[]]

/-- The texts that are put into the drop-ins. -/
structure NewlineFree (input : DropinInput) : Prop where
  description : ∀ t ∈ describedBy input, '\n' ∉ t
  preloader : ∀ c, preloaderCommand "%I".toList input = some c → ∀ w ∈ c, '\n' ∉ w
  service : ∀ c, serviceCommand "%I".toList input = some c → ∀ w ∈ c, '\n' ∉ w

theorem linesIntended_iff {input : DropinInput} (hid : '\n' ∉ input.id) :
    LinesIntended input ↔ NewlineFree input := by
  have hpreloader : '\n' ∉ "Environment preloader".toList := by decide
  have hservice : '\n' ∉ "Main service".toList := by decide
  have hpre := splitOn_dropin_iff (preloaderCommand "%I".toList input) hpreloader hid
  have hsvc := splitOn_dropin_iff (serviceCommand "%I".toList input) hservice hid
  rw [← preloaderDropin_eq] at hpre
  rw [← serviceDropin_eq] at hsvc
  constructor
  · rintro ⟨h, h'⟩
    exact ⟨(hpre.1 h).1, (hpre.1 h).2, (hsvc.1 h').2⟩
  · rintro ⟨hdesc, h, h'⟩
    exact ⟨hpre.2 ⟨hdesc, h⟩, hsvc.2 ⟨hdesc, h'⟩⟩

/-- **Drop-ins cannot be injected into** exactly when no text in them has a newline. -/
theorem not_injected_iff {host : Host} {input : ResolveInput} {comp : CompGlobals} {binPath : Str}
    (h : resolve host input = .ok comp) :
    LinesIntended (buildDropins comp binPath) ↔ NewlineFree (buildDropins comp binPath) := by
  obtain ⟨m, hm, rfl, -⟩ := exists_meaning h
  exact linesIntended_iff (not_mem_wmId (wmId_of_meaning hm) (by decide))

theorem not_injected_iff_sway : ∃ comp, resolve bareHost (inputOf "/usr/bin/sway".toList) = .ok comp ∧
    LinesIntended (buildDropins comp "/usr/bin/wsmr".toList) := by
  have h := resolve_executable "/usr/bin/sway".toList (by decide) (by decide)
  refine ⟨_, h, (not_injected_iff h).2 ⟨?_, ?_, ?_⟩⟩
  all_goals decide

/-- `start -N NAME sway` with newlines in the name. -/
def injectingInput : ResolveInput :=
  ⟨["sway".toList], [], false, some "x\n[Service]\nExecStart=\nExecStart=/bin/false".toList, none, []⟩

/-- The name brings its own section and command along. -/
theorem name_injected : ∃ comp, resolve bareHost injectingInput = .ok comp ∧
    ¬ LinesIntended (buildDropins comp "/usr/bin/wsmr".toList) := by
  have hm : meaning bareHost "sway".toList = .ok ⟨fileBasename "sway".toList, ["sway".toList], [], none, none⟩ :=
    (meaning_executable (by decide)).2 ⟨by decide, rfl⟩
  refine ⟨compOf injectingInput _, by rw [resolve_eq "sway".toList rfl, hm]; rfl, fun hlines => ?_⟩
  have hfree := (linesIntended_iff (not_mem_wmId (wmId_of_meaning hm) (by decide))).1 hlines
  exact absurd hfree.description (by decide)

end Wsmr
