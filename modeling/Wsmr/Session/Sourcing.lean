import Wsmr.App.Replies
import Wsmr.Session.Prepare
import Wsmr.Session.State

/-!
# Quoted text in a shell (`src/units/templates.rs`, `src/app/daemon.rs`, `src/session/prepare.rs`)

What a POSIX shell makes of the texts that are quoted for it: the words of `shlex_join`, the replies of the
app-daemon, and the file that `prepare-env.sh` sources. No string is left out.
-/

namespace Wsmr

open Text

/-! ## The loader's variables -/

theorem shQuote_eq (s : Str) : shQuote s = shlexQuote s := by
  have hquote : "'".toList = ['\''] := by decide
  unfold shQuote shlexQuote
  rw [hquote]
  simp only [List.cons.injEq, and_true, List.cons_append, List.nil_append]

def isHexDigit (c : Char) : Bool := ('0' ≤ c && c ≤ '9') || ('a' ≤ c && c ≤ 'f') || ('A' ≤ c && c ≤ 'F')

/-- The boundary of a dump. -/
structure Mark where
  text : Str
  length_text : text.length = 16
  hex : ∀ c ∈ text, isHexDigit c = true

/-- `random_mark` -/
def Mark.random (buf : Fin 8 → UInt8) : Mark where
  text := randomHexId buf
  length_text := by simp [randomHexId, List.ofFn_succ, hexByte]
  hex c hc := by
    have hdigit : ∀ n < 16, isHexDigit (hexDigit n) = true := by decide
    obtain ⟨b, _, hb⟩ := List.mem_flatMap.1 hc
    have hlt : b.toNat < 256 := b.toNat_lt
    simp only [hexByte, List.mem_cons, List.not_mem_nil, or_false] at hb
    rcases hb with rfl | rfl
    · exact hdigit _ (by omega)
    · exact hdigit _ (by omega)

/-- The variables that are to be set for the loader. -/
def auxAssignments (comp : CompGlobals) (mark : Str) (haveLogin : Bool) : List (Str × Str) := [
  ("__SELF_NAME__".toList, "wsmr".toList),
  ("__WM_ID__".toList, comp.id),
  ("__WM_ID_UNIT_STRING__".toList, comp.idUnitString),
  ("__WM_BIN_ID__".toList, comp.binId),
  ("__WM_DESKTOP_NAMES__".toList, List.intercalate [':'] comp.desktopNames),
  ("__WM_FIRST_DESKTOP_NAME__".toList, comp.desktopNames.head?.getD []),
  ("__WM_DESKTOP_NAMES_EXCLUSIVE__".toList, "false".toList),
  ("__LOAD_PROFILE__".toList, if haveLogin then "true".toList else "false".toList),
  ("__OIFS__".toList, [' ', '\t', '\n']),
  ("__RANDOM_MARK__".toList, mark),
  ("IN_UWSM_ENV_PRELOADER".toList, "true".toList)]

theorem auxAssignments_names (comp : CompGlobals) (mark : Str) (haveLogin : Bool) :
    ((auxAssignments comp mark haveLogin).map Prod.fst).Nodup := by
  have hnames : (auxAssignments comp mark haveLogin).map Prod.fst = [
      "__SELF_NAME__".toList, "__WM_ID__".toList, "__WM_ID_UNIT_STRING__".toList, "__WM_BIN_ID__".toList,
      "__WM_DESKTOP_NAMES__".toList, "__WM_FIRST_DESKTOP_NAME__".toList, "__WM_DESKTOP_NAMES_EXCLUSIVE__".toList,
      "__LOAD_PROFILE__".toList, "__OIFS__".toList, "__RANDOM_MARK__".toList, "IN_UWSM_ENV_PRELOADER".toList] := rfl
  rw [hnames]
  decide

/-- A line in two parts, of which the first ends at `=`. -/
theorem assigns_append {name value start text : Str} (hstart : start = name ++ ['=']) (hname : Shell.isName name = true)
    (hread : Shell.Reads value text) : Shell.Assigns (name, value) (start ++ text) :=
  ⟨hname, text, by rw [hstart, List.append_assoc, List.singleton_append], hread⟩

theorem assigns_plain {name value line : Str} (hline : line = name ++ '=' :: value) (hname : Shell.isName name = true)
    (hplain : value.all isPlain = true) (hne : value ≠ []) : Shell.Assigns (name, value) line :=
  ⟨hname, value, hline, Shell.reads_bare (bare_of_plain (List.all_eq_true.1 hplain)) hne⟩

theorem reads_oifs : Shell.Reads [' ', '\t', '\n'] ['"', ' ', '\t', '\n', '"'] :=
  ⟨false, fun word s => by simp [Shell.lexFrom, Shell.extend_extend]⟩

theorem alphanumeric_of_isHexDigit {c : Char} (h : isHexDigit c = true) : isAsciiAlphanumeric c = true := by
  simp only [isHexDigit, Bool.or_eq_true, Bool.and_eq_true, decide_eq_true_eq] at h
  simp only [isAsciiAlphanumeric, isAsciiAlphabetic, Bool.or_eq_true, Bool.and_eq_true, decide_eq_true_eq]
  rcases h with (h | h) | h
  · exact Or.inr h
  · exact Or.inl (Or.inr ⟨h.1, Char.le_trans h.2 (by decide : 'f' ≤ 'z')⟩)
  · exact Or.inl (Or.inl ⟨h.1, Char.le_trans h.2 (by decide : 'F' ≤ 'Z')⟩)

theorem Mark.plain (mark : Mark) : ∀ c ∈ mark.text, isPlain c = true := fun c hc => by
  rw [isPlain, alphanumeric_of_isHexDigit (mark.hex c hc), Bool.true_or]

theorem Mark.ne_nil (mark : Mark) : mark.text ≠ [] := fun h => by
  have hlength := mark.length_text
  rw [h] at hlength
  cases hlength

theorem intercalate_feed : ∀ {ls : List Str}, ls ≠ [] →
    List.intercalate ['\n'] ls ++ ['\n'] = ls.flatMap (· ++ ['\n'])
  | [], h => absurd rfl h
  | [l], _ => by simp
  | l :: m :: ls, _ => by
    have ih := intercalate_feed (List.cons_ne_nil m ls)
    rw [List.intercalate_cons_cons, List.append_assoc, ih]
    simp

/-- The lines of the file make these assignments, and no others. -/
theorem assignments_auxVars (comp : CompGlobals) (mark : Mark) (haveLogin : Bool) :
    Shell.assignments (auxVars comp mark.text haveLogin) = some (auxAssignments comp mark.text haveLogin) := by
  have hquoted : ∀ {name start value : Str}, start = name ++ ['='] → Shell.isName name = true →
      Shell.Assigns (name, value) (start ++ shQuote value) := fun hstart hname => by
    rw [shQuote_eq]
    exact assigns_append hstart hname (reads_shlexQuote _)
  have hlogin : Shell.Reads (if haveLogin then "true".toList else "false".toList)
      (if haveLogin then "true".toList else "false".toList) := by
    cases haveLogin
    · exact Shell.reads_bare (bare_of_plain (forall_mem_of_all (by decide))) (by decide)
    · exact Shell.reads_bare (bare_of_plain (forall_mem_of_all (by decide))) (by decide)
  unfold auxVars
  simp only
  rw [intercalate_feed (List.cons_ne_nil _ _)]
  refine Shell.assignments_flatMap ?_
  unfold auxAssignments
  refine .cons (assigns_plain (by decide) (by decide) (by decide) (by decide)) ?_
  refine .cons (hquoted (by decide) (by decide)) ?_
  refine .cons (hquoted (by decide) (by decide)) ?_
  refine .cons (hquoted (by decide) (by decide)) ?_
  refine .cons (hquoted (by decide) (by decide)) ?_
  refine .cons (hquoted (by decide) (by decide)) ?_
  refine .cons (assigns_plain (by decide) (by decide) (by decide) (by decide)) ?_
  refine .cons (assigns_append (by decide) (by decide) hlogin) ?_
  refine .cons ⟨by decide, ['"', ' ', '\t', '\n', '"'], by decide, reads_oifs⟩ ?_
  refine .cons (assigns_append (by decide) (by decide)
    (Shell.reads_bare (bare_of_plain mark.plain) mark.ne_nil)) ?_
  exact .cons (assigns_plain (by decide) (by decide) (by decide) (by decide)) .nil

/-! ## Round trips -/

theorem split_shlexJoin (parts : List Str) : Shell.split (shlexJoin parts) = some parts := by
  have hsplit := @Shell.split_intercalate (parts.map fun w => (w, shlexQuote w)) fun p hp => by
    obtain ⟨w, -, rfl⟩ := List.mem_map.1 hp
    exact reads_shlexQuote w
  have hblank : " ".toList = [' '] := by decide
  unfold shlexJoin
  rw [hblank]
  simpa [Function.comp_def] using hsplit

/-- **Quoting is undone by the shell**: in the words of a line, in the reply of the app-daemon, and in the variables
of the loader, whatever `vars` they had before. -/
theorem shell_round_trip :
    (∀ parts, Shell.split (shlexJoin parts) = some parts) ∧
    (∀ host terminal hex cli args opts argvs, cli ("wsmr".toList :: args) = .ok (some opts) →
      resolveApp host terminal hex opts = .ok argvs →
        argvs ≠ [] ∧ ∃ reply, handleApp cli (resolveApp host terminal hex) args = .ok reply ∧
          shellRun reply = some ⟨argvs.map fun argv => ⟨argv, []⟩, true⟩) ∧
    ∀ comp (mark : Mark) haveLogin vars, ∃ vars', Shell.source vars (auxVars comp mark.text haveLogin) = some vars' ∧
      (∀ p ∈ auxAssignments comp mark.text haveLogin, vars' p.1 = some p.2) ∧
      ∀ name, name ∉ (auxAssignments comp mark.text haveLogin).map Prod.fst → vars' name = vars name := by
  refine ⟨split_shlexJoin, ?_, ?_⟩
  · intro host terminal hex cli args opts argvs hcli hres
    obtain ⟨hne, hall⟩ := resolveApp_ok hres
    refine ⟨hne, appReply argvs, ?_, shellRun_appReply hall⟩
    unfold handleApp
    rw [hcli]
    simp only [hres]
    rfl
  · intro comp mark haveLogin vars
    refine ⟨Shell.assign vars (auxAssignments comp mark.text haveLogin), ?_, ?_, ?_⟩
    · rw [Shell.source, assignments_auxVars, Option.map_some]
    · exact fun p hp => Shell.assign_of_mem vars (auxAssignments_names comp mark.text haveLogin) hp
    · exact fun name hname => Shell.assign_of_not_mem vars hname

theorem shell_round_trip_true : ∃ (argvs : List (List Str)) (reply : Str),
    handleApp (trueCli .service) (resolveApp trueHost noTerminal trueHex) trueWords = .ok reply ∧
      shellRun reply = some ⟨argvs.map fun argv => ⟨argv, []⟩, true⟩ :=
  ⟨_, (shell_round_trip.2.1 _ _ _ _ _ _ _ (if_pos rfl) rfl).2⟩

end Wsmr
