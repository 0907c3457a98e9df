import Wsmr.App.Reading
import Wsmr.App.Tokens

/-!
# Encoded `Exec` values (`src/app/entry.rs`, `src/app/field.rs`)

The encoding of the desktop-entry specification: each argument between double quotes, then the escapes of strings.
Reading the line, taking the escapes back and tokenizing leads to the arguments again (`exec_of_encoded`).
-/

namespace Wsmr

open Text

/-! ## The encoding -/

/-- A character within double quotes. -/
def quoteChar (c : Char) : Str := if c ∈ ['"', '`', '$', '\\'] then ['\\', c] else [c]

def quoteArg (arg : Str) : Str := '"' :: arg.flatMap quoteChar ++ ['"']

/-- The arguments, one blank between them. -/
def encodeArgs : List Str → Str
  | [] => []
  | [arg] => quoteArg arg
  | arg :: args => quoteArg arg ++ ' ' :: encodeArgs args

/-- The escapes of a string value. -/
def escapeValueChar (c : Char) : Str :=
  if c = '\\' then ['\\', '\\']
  else if c = '\n' then ['\\', 'n']
  else if c = '\t' then ['\\', 't']
  else if c = '\r' then ['\\', 'r']
  else [c]

def escapeValue (s : Str) : Str := s.flatMap escapeValueChar

/-! ## Escapes -/

theorem expandChars_escapeValueChar (c : Char) (s : Str) :
    expandChars false (escapeValueChar c ++ s) = c :: expandChars false s := by
  unfold escapeValueChar
  split
  · subst c
    rfl
  split
  · subst c
    rfl
  split
  · subst c
    rfl
  split
  · subst c
    rfl
  · rename_i hbackslash _ _ _
    rw [List.singleton_append, expandChars, if_neg hbackslash]

theorem expandChars_of_not_mem : ∀ {s : Str}, '\\' ∉ s → expandChars false s = s
  | [], _ => rfl
  | c :: s, h => by
    rw [List.mem_cons, not_or] at h
    rw [expandChars, if_neg (Ne.symm h.1), expandChars_of_not_mem h.2]

theorem expandStr_eq (s : Str) : expandStr s = expandChars false s := by
  unfold expandStr
  split
  · rfl
  · rename_i h
    exact (expandChars_of_not_mem (by simpa using h)).symm

/-- **Escapes are taken back.** -/
theorem expandStr_escapeStr (s : Str) : expandStr (escapeValue s) = s := by
  rw [expandStr_eq]
  induction s with
  | nil => rfl
  | cons c s ih =>
    show expandChars false (escapeValueChar c ++ escapeValue s) = c :: s
    rw [expandChars_escapeValueChar, ih]

/-! ## Quotes -/

theorem body_quoted : ∀ arg : Str, Body (arg.flatMap quoteChar) arg
  | [] => .nil
  | c :: arg => by
    rw [List.flatMap_cons, quoteChar]
    split
    · exact .escape (body_quoted arg)
    · rename_i hc
      refine .plain (fun hmem => hc ?_) (body_quoted arg)
      simp only [List.mem_cons, List.not_mem_nil, or_false] at hmem ⊢
      tauto

theorem argument_quoteArg (arg : Str) : Argument (quoteArg arg) arg := by
  have h := Argument.quoted (body_quoted arg) .nil
  rwa [List.append_nil] at h

theorem head?_encodeArgs {arg : Str} {args : List Str} : (encodeArgs (arg :: args)).head? = some '"' := by
  cases args <;> rfl

theorem getLast?_encodeArgs : ∀ {arg : Str} {args : List Str}, (encodeArgs (arg :: args)).getLast? = some '"'
  | arg, [] => List.getLast?_concat
  | arg, next :: args => by
    show (quoteArg arg ++ ' ' :: encodeArgs (next :: args)).getLast? = some '"'
    rw [List.getLast?_append_of_ne_nil _ (List.cons_ne_nil _ _), List.getLast?_cons, getLast?_encodeArgs]
    rfl

theorem arguments_encodeArgs : ∀ (arg : Str) (args : List Str), Arguments (encodeArgs (arg :: args)) (arg :: args)
  | arg, [] => .last (argument_quoteArg arg)
  | arg, next :: args => by
    have h := Arguments.more (w := [' ']) (argument_quoteArg arg) (List.cons_ne_nil _ _)
      (forall_mem_of_all (by decide))
      (fun c hc => ?_) (arguments_encodeArgs next args)
    · rwa [List.append_assoc] at h
    · rw [head?_encodeArgs] at hc
      obtain rfl := Option.some.inj hc
      decide

/-- **Quotes are taken off.** -/
theorem tokenizeExec_encodeArgs {argv : List Str} (h : argv ≠ []) : tokenizeExec (encodeArgs argv) = .ok argv := by
  obtain ⟨arg, args, rfl⟩ := List.exists_cons_of_ne_nil h
  have htrim : trim (encodeArgs (arg :: args)) = encodeArgs (arg :: args) := by
    refine trim_eq_of_ends (fun c hc => ?_) fun c hc => ?_
    · rw [head?_encodeArgs] at hc
      obtain rfl := Option.some.inj hc
      decide
    · rw [getLast?_encodeArgs] at hc
      obtain rfl := Option.some.inj hc
      decide
  exact tokenizeExec_of_arguments (htrim.symm ▸ arguments_encodeArgs arg args)

/-! ## The line -/

open DesktopEntry

theorem getLast?_escapeStr {s : Str} (h : s.getLast? = some '"') : (escapeValue s).getLast? = some '"' := by
  obtain ⟨t, rfl⟩ := List.getLast?_eq_some_iff.1 h
  rw [escapeValue, List.flatMap_append, List.flatMap_singleton]
  exact List.getLast?_concat

/-- A line that gives a value ending in a quote. -/
theorem lineOf_exec {v : Str} (h : v.getLast? = some '"') : lineOf ("Exec=".toList ++ v) = .value "Exec".toList v := by
  have hlast : ("Exec=".toList ++ v).getLast? = some '"' := by
    rw [List.getLast?_append_of_ne_nil _ (by rintro rfl; cases h), h]
  have hcr : trimEndMatches '\r' ("Exec=".toList ++ v) = "Exec=".toList ++ v := by
    rw [trimEndMatches, dropWhile_eq_of_head, List.reverse_reverse]
    intro c hc
    rw [List.head?_reverse, hlast] at hc
    obtain rfl := Option.some.inj hc
    decide
  have htrim : trim ("Exec=".toList ++ v) = "Exec=".toList ++ v := by
    refine trim_eq_of_ends (fun c hc => ?_) fun c hc => ?_
    · obtain rfl : 'E' = c := Option.some.inj hc
      decide
    · rw [hlast] at hc
      obtain rfl := Option.some.inj hc
      decide
  have hkey : trim "Exec".toList = "Exec".toList := trim_eq_self (forall_mem_of_all (by decide))
  have hsplit : splitOnce '=' ("Exec=".toList ++ v) = some ("Exec".toList, v) :=
    @splitOnce_append '=' "Exec".toList v (by decide)
  have hheader : stripPrefix "[".toList ("Exec=".toList ++ v) = none := by
    rw [stripPrefix, if_neg]
    rintro ⟨t, ht⟩
    exact absurd (List.cons.inj ht).1 (by decide)
  unfold lineOf
  dsimp only
  rw [hcr, htrim, hheader, hsplit, if_neg (by simp)]
  exact congrArg (Line.value · v) hkey

/-- **Encoded arguments are read back**, from whatever text they stand in as the last value of `Exec`. -/
theorem exec_of_encoded (filename content : Str) (argv before after : List Str) (hne : argv ≠ [])
    (hlines : lines content = before ++ ("Exec=".toList ++ escapeValue (encodeArgs argv)) :: after)
    (hgroup : before.foldl groupAfter none = some mainGroup)
    (hlast : ∀ e ∈ entriesFrom (some mainGroup) after, ¬ (e.group = mainGroup ∧ e.key = "Exec".toList)) :
    ∃ e, parse filename content = .ok e ∧ e.exec none = .ok argv := by
  obtain ⟨arg, args, rfl⟩ := List.exists_cons_of_ne_nil hne
  have hline := lineOf_exec (getLast?_escapeStr (@getLast?_encodeArgs arg args))
  have hheader : HasGroup content mainGroup := by
    obtain ⟨raw, hraw, hheader⟩ := (foldl_groupAfter_eq_some before hgroup).resolve_left nofun
    exact ⟨raw, by rw [hlines]; exact List.mem_append_left _ hraw, hheader⟩
  obtain ⟨e, he⟩ := (parse_ok_iff filename content).2 hheader
  refine ⟨e, he, ?_⟩
  have hget : e.get "Exec".toList none = some (escapeValue (encodeArgs (arg :: args))) :=
    get_last he hlines hgroup hline hlast
  unfold DesktopEntry.exec
  rw [hget]
  show tokenizeExec (expandStr (escapeValue (encodeArgs (arg :: args)))) = _
  rw [expandStr_escapeStr, tokenizeExec_encodeArgs (List.cons_ne_nil _ _)]

theorem exec_of_encoded_sh :
    ∃ e, parse "/x/a.desktop".toList "[Desktop Entry]\nExec=\"sh\" \"a \\\\\"b\\\\\"\\n\\\\$c\"\n".toList = .ok e ∧
      e.exec none = .ok ["sh".toList, "a \"b\"\n$c".toList] :=
  exec_of_encoded _ _ ["sh".toList, "a \"b\"\n$c".toList] ["[Desktop Entry]".toList] [] (List.cons_ne_nil _ _)
    (by decide) (by decide) nofun

end Wsmr
