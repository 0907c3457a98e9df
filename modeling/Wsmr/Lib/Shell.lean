import Wsmr.Lib.Text

/-!
# Command lines of a POSIX shell

The part of the language with words, quotes, `&`, redirections of output to files, `exec`, `wait` and assignments. Text
with anything else in it (expansions, other operators) has no meaning here, so that whatever is proved to have one does
not use it.

* `lex` — the words and operators of a line, quotes removed.
* `split` — its words, when there is no operator.
* `run` — the programs that a line starts, with their redirections, and whether it waits for them.
* `source` — the variables after a script of assignments.
-/

namespace Shell

open Text

/-! ## Words -/

inductive Token where
  | word (w : Str)
  | amp
  /-- `>`, for this file descriptor. -/
  | redirect (fd : Nat)
  deriving DecidableEq, Repr

/-- Where the scanner is: outside quotes, or in a kind of them. -/
inductive Mode where
  | plain
  | single
  | double
  deriving DecidableEq, Repr

/-- Characters that are more than themselves outside quotes. -/
def isSpecial (c : Char) : Bool := "|;<>()$`\\*?[]#~{}!\n\t\r".toList.contains c

/-- What has been read of a word; `bare` if none of it was quoted. -/
structure Pending where
  text : Str
  bare : Bool

/-- The word with this after it. -/
def extend (word : Option Pending) (w : Str) (bare : Bool) : Option Pending :=
  match word with
  | none => some ⟨w, bare⟩
  | some p => some ⟨p.text ++ w, p.bare && bare⟩

theorem extend_extend (word : Option Pending) (v w : Str) (b c : Bool) :
    extend (extend word v b) w c = extend word (v ++ w) (b && c) := by
  cases word with
  | none => rfl
  | some p => simp [extend, Bool.and_assoc]

/-- The end of a word, if there is one. -/
def flush : Option Pending → List Token → List Token
  | none, ts => ts
  | some p, ts => .word p.text :: ts

def isDigit (c : Char) : Bool := '0' ≤ c && c ≤ '9'

/-- The tokens that a `>` ends: a number right before it is that of a descriptor. -/
def redirect : Option Pending → List Token → List Token
  | none, ts => .redirect 1 :: ts
  | some p, ts =>
    if p.bare && p.text.all isDigit then .redirect (p.text.foldl (fun n c => 10 * n + (c.toNat - '0'.toNat)) 0) :: ts
    else .word p.text :: .redirect 1 :: ts

/-- `word` is what has been read of the current word. -/
def lexFrom : Mode → Option Pending → Str → Option (List Token)
  | .plain, word, [] => some (flush word [])
  | .plain, word, c :: s =>
    if c = ' ' then (lexFrom .plain none s).map (flush word)
    else if c = '&' then (lexFrom .plain none s).map fun ts => flush word (.amp :: ts)
    else if c = '\'' then lexFrom .single (extend word [] false) s
    else if c = '"' then lexFrom .double (extend word [] false) s
    else if c = '>' then (lexFrom .plain none s).map (redirect word)
    else if isSpecial c then none
    else lexFrom .plain (extend word [c] true) s
  | .single, word, c :: s =>
    if c = '\'' then lexFrom .plain word s else lexFrom .single (extend word [c] false) s
  | .double, word, c :: s =>
    if c = '"' then lexFrom .plain word s
    else if c = '$' || c = '`' || c = '\\' then none
    else lexFrom .double (extend word [c] false) s
  | _, _, [] => none

def lex (s : Str) : Option (List Token) := lexFrom .plain none s

/-- `text` is read as the word `w`, or as a further part of the current word. -/
def Reads (w text : Str) : Prop := ∃ bare, ∀ (word : Option Pending) (s : Str),
  lexFrom .plain word (text ++ s) = lexFrom .plain (extend word w bare) s

/-- Nothing in `w` has to be quoted. -/
def Bare (w : Str) : Prop := ∀ c ∈ w, c ≠ ' ' ∧ c ≠ '&' ∧ c ≠ '\'' ∧ c ≠ '"' ∧ isSpecial c = false

theorem ne_redirect_of_special {c : Char} (h : isSpecial c = false) : c ≠ '>' := by
  rintro rfl
  cases h

theorem reads_bare : ∀ {w : Str}, Bare w → w ≠ [] → Reads w w
  | [], _, hne => absurd rfl hne
  | [c], h, _ => by
    obtain ⟨h1, h2, h3, h4, h5⟩ := h c List.mem_cons_self
    have h6 := ne_redirect_of_special h5
    exact ⟨true, fun word s => by simp [lexFrom, h1, h2, h3, h4, h5, h6]⟩
  | c :: d :: w, h, _ => by
    obtain ⟨h1, h2, h3, h4, h5⟩ := h c List.mem_cons_self
    obtain ⟨bare, hrest⟩ := reads_bare (fun e he => h e (List.mem_cons_of_mem _ he)) (List.cons_ne_nil d w)
    refine ⟨true && bare, fun word s => ?_⟩
    rw [List.cons_append, lexFrom, if_neg h1, if_neg h2, if_neg h3, if_neg h4, if_neg (ne_redirect_of_special h5), h5,
      if_neg (by simp), hrest, extend_extend]
    rfl

theorem bare_of_forall {w : Str} {p : Char → Bool} (h : ∀ c ∈ w, p c = true)
    (hspecial : ∀ d ∈ ' ' :: '&' :: '\'' :: '"' :: "|;<>()$`\\*?[]#~{}!\n\t\r".toList, p d = false) : Bare w := by
  intro c hc
  have hne : ∀ d ∈ ' ' :: '&' :: '\'' :: '"' :: "|;<>()$`\\*?[]#~{}!\n\t\r".toList, c ≠ d := by
    rintro d hd rfl
    exact Bool.noConfusion ((h c hc).symm.trans (hspecial c hd))
  refine ⟨hne _ (by simp), hne _ (by simp), hne _ (by simp), hne _ (by simp), ?_⟩
  unfold isSpecial
  rw [List.contains_eq_mem, decide_eq_false_iff_not]
  exact fun hm => hne c (by simp only [List.mem_cons]; exact Or.inr (Or.inr (Or.inr (Or.inr hm)))) rfl

theorem reads_append {v w s t : Str} (hs : Reads v s) (ht : Reads w t) : Reads (v ++ w) (s ++ t) := by
  obtain ⟨b, hs⟩ := hs
  obtain ⟨c, ht⟩ := ht
  refine ⟨b && c, fun word rest => ?_⟩
  rw [List.append_assoc, hs, ht, extend_extend]

/-- `w` in single quotes, but for each `\'` in it, which stands in double quotes. -/
def quoted (w : Str) : Str := '\'' :: w.flatMap (fun c => if c = '\'' then "'\"'\"'".toList else [c]) ++ ['\'']

theorem lexFrom_single (word : Option Pending) : ∀ {w : Str} (v s : Str),
    lexFrom .single (extend word v false) (w.flatMap (fun c => if c = '\'' then "'\"'\"'".toList else [c]) ++ '\'' :: s) =
      lexFrom .plain (extend word (v ++ w) false) s
  | [], v, s => by simp [lexFrom]
  | c :: w, v, s => by
    have ih := lexFrom_single word (w := w) (v ++ [c]) s
    have hquote : "'\"'\"'".toList = ['\'', '"', '\'', '"', '\''] := by decide
    rw [hquote] at ih ⊢
    rw [List.flatMap_cons, List.append_assoc]
    by_cases hc : c = '\''
    · subst hc
      simpa [lexFrom, extend_extend] using ih
    · simpa [lexFrom, extend_extend, hc] using ih

theorem reads_quoted (w : Str) : Reads w (quoted w) := ⟨false, fun word s => by
  have happ : quoted w ++ s =
      '\'' :: (w.flatMap (fun c => if c = '\'' then "'\"'\"'".toList else [c]) ++ '\'' :: s) := by
    simp only [quoted, List.cons_append, List.append_assoc, List.nil_append]
  rw [happ, lexFrom, if_neg (by decide), if_neg (by decide), if_pos rfl]
  exact lexFrom_single word [] s⟩

/-! ## Lines -/

/-- `text` is read as one token, when a blank or the end of the line comes after it. -/
def ReadsToken (t : Token) (text : Str) : Prop := ∀ s : Str, s = [] ∨ s.head? = some ' ' →
  lexFrom .plain none (text ++ s) = (lexFrom .plain none s).map (t :: ·)

theorem readsToken_word {w text : Str} (h : Reads w text) : ReadsToken (.word w) text := by
  obtain ⟨bare, h⟩ := h
  rintro s (rfl | hs)
  · rw [h]
    rfl
  · obtain ⟨s, rfl⟩ := List.head?_eq_some_iff.1 hs
    rw [h, lexFrom, if_pos rfl, lexFrom, if_pos rfl, Option.map_map]
    rfl

theorem readsToken_amp : ReadsToken .amp ['&'] := fun s _ => by
  simp [lexFrom, flush]

/-- A line is read as the tokens it was made of. -/
theorem lex_intercalate : ∀ {items : List (Token × Str)}, (∀ p ∈ items, ReadsToken p.1 p.2) →
    lex (List.intercalate [' '] (items.map Prod.snd)) = some (items.map Prod.fst)
  | [], _ => rfl
  | [p], h => by
    have hp := h p List.mem_cons_self [] (Or.inl rfl)
    simpa [lex, lexFrom, flush] using hp
  | p :: q :: items, h => by
    have hp := h p List.mem_cons_self (' ' :: List.intercalate [' '] ((q :: items).map Prod.snd)) (Or.inr rfl)
    have ih := lex_intercalate fun r hr => h r (List.mem_cons_of_mem p hr)
    have hblank : ∀ s, lexFrom .plain none (' ' :: s) = lex s := fun s => by
      rw [lexFrom, if_pos rfl, lex]
      exact Option.map_id'
    rw [hblank, ih] at hp
    rw [lex, List.map_cons, List.map_cons, List.intercalate_cons_cons, List.append_assoc]
    exact hp

/-! ## Programs -/

structure Command where
  words : List Str
  /-- The files that descriptors are redirected to, from left to right. -/
  redirects : List (Nat × Str)
  /-- With `&` after it. -/
  background : Bool

/-- `words` and `redirects` are what has been read of the current command. -/
def commandsFrom : List Str → List (Nat × Str) → List Token → Option (List Command)
  | [], [], [] => some []
  | w :: ws, redirects, [] => some [⟨w :: ws, redirects, false⟩]
  | words, redirects, .word w :: ts => commandsFrom (words ++ [w]) redirects ts
  | words, redirects, .redirect fd :: .word file :: ts => commandsFrom words (redirects ++ [(fd, file)]) ts
  | w :: ws, redirects, .amp :: ts => (commandsFrom [] [] ts).map (⟨w :: ws, redirects, true⟩ :: ·)
  | _, _, _ => none

/-- A program that is started. -/
structure Started where
  argv : List Str
  redirects : List (Nat × Str)
  deriving DecidableEq, Repr

/-- Where the output to a descriptor goes, if it is redirected: the last redirection counts. -/
def Started.output? (p : Started) (fd : Nat) : Option Str := p.redirects.reverse.lookup fd

/-- The programs that are started, and whether nothing is left running that nobody waits for. -/
structure Run where
  started : List Started
  waited : Bool
  deriving DecidableEq, Repr

/-- `external` tells the names of programs; `pending` after commands in the background. The program of an
`exec` takes the place of the shell. -/
def execute (external : Str → Bool) : Bool → List Command → Option Run
  | pending, [] => some ⟨[], !pending⟩
  | pending, c :: cs =>
    match c.words with
    | [] => none
    | name :: args =>
      if name = "exec".toList then
        if !c.background && args.head?.any external then some ⟨[⟨args, c.redirects⟩], !pending⟩ else none
      else if name = "wait".toList then
        if !c.background && args.isEmpty && c.redirects.isEmpty then execute external false cs else none
      else if external name then
        (execute external (pending || c.background) cs).map fun r =>
          { r with started := ⟨name :: args, c.redirects⟩ :: r.started }
      else none

def run (external : Str → Bool) (line : Str) : Option Run := do
  let commands ← commandsFrom [] [] (← lex line)
  execute external false commands

theorem commandsFrom_words : ∀ {ws words : List Str} {redirects : List (Nat × Str)} (ts : List Token),
    commandsFrom words redirects (ws.map Token.word ++ ts) = commandsFrom (words ++ ws) redirects ts
  | [], words, redirects, ts => by simp
  | w :: ws, words, redirects, ts => by
    have ih := @commandsFrom_words ws (words ++ [w]) redirects ts
    simpa [commandsFrom] using ih

/-! ## Words alone -/

/-- The words of tokens without operators. -/
def wordsOf : List Token → Option (List Str)
  | [] => some []
  | .word w :: ts => (wordsOf ts).map (w :: ·)
  | _ => none

def split (line : Str) : Option (List Str) := (lex line).bind wordsOf

theorem wordsOf_map_word : ∀ ws : List Str, wordsOf (ws.map Token.word) = some ws
  | [] => rfl
  | w :: ws => by simp [wordsOf, wordsOf_map_word ws]

/-- A line of words is split into the words it was made of. -/
theorem split_intercalate {items : List (Str × Str)} (h : ∀ p ∈ items, Reads p.1 p.2) :
    split (List.intercalate [' '] (items.map Prod.snd)) = some (items.map Prod.fst) := by
  have hlex := @lex_intercalate (items.map fun p => (Token.word p.1, p.2)) fun q hq => by
    obtain ⟨p, hp, rfl⟩ := List.mem_map.1 hq
    exact readsToken_word (h p hp)
  have htexts : (items.map fun p => (Token.word p.1, p.2)).map Prod.snd = items.map Prod.snd := by
    simp [Function.comp_def]
  have hwords : (items.map fun p => (Token.word p.1, p.2)).map Prod.fst = (items.map Prod.fst).map Token.word := by
    simp [Function.comp_def]
  rw [htexts, hwords] at hlex
  rw [split, hlex, Option.bind_some, wordsOf_map_word]

/-! ## Scripts -/

/-- The lines of a script: a line feed within quotes does not end one. `line` is what has been read of the
current one. -/
def linesFrom : Mode → Str → Str → Option (List Str)
  | .plain, line, [] => some (if line = [] then [] else [line])
  | .plain, line, c :: s =>
    if c = '\n' then (linesFrom .plain [] s).map (line :: ·)
    else linesFrom (if c = '\'' then .single else if c = '"' then .double else .plain) (line ++ [c]) s
  | .single, line, c :: s => linesFrom (if c = '\'' then .plain else .single) (line ++ [c]) s
  | .double, line, c :: s => linesFrom (if c = '"' then .plain else .double) (line ++ [c]) s
  | _, _, [] => none

def lines (script : Str) : Option (List Str) := linesFrom .plain [] script

/-- What can be read as a line is one. -/
theorem linesFrom_of_lexFrom {s : Str} : ∀ {line : Str} {mode : Mode} {word : Option Pending} {ts : List Token}
    (before : Str), lexFrom mode word line = some ts →
      linesFrom mode before (line ++ '\n' :: s) = (lines s).map ((before ++ line) :: ·)
  | [], .plain, _, _, before, _ => by simp [linesFrom, lines]
  | c :: line, .plain, word, ts, before, h => by
    -- A line feed outside quotes has no meaning within a line.
    have hfeed : c ≠ '\n' := by
      rintro rfl
      simp [lexFrom, isSpecial] at h
    have hrest : ∃ word ts, lexFrom (if c = '\'' then .single else if c = '"' then .double else .plain) word line =
        some ts := by
      unfold lexFrom at h
      split at h
      · subst c
        exact ⟨none, Option.map_eq_some_iff.1 h |>.imp fun ts hts => hts.1⟩
      split at h
      · subst c
        exact ⟨none, Option.map_eq_some_iff.1 h |>.imp fun ts hts => hts.1⟩
      split at h
      · rename_i hquote
        exact ⟨_, _, by rwa [if_pos hquote]⟩
      split at h
      · rename_i hquote hdouble
        exact ⟨_, _, by rwa [if_neg hquote, if_pos hdouble]⟩
      split at h
      · subst c
        exact ⟨none, Option.map_eq_some_iff.1 h |>.imp fun ts hts => hts.1⟩
      split at h
      · cases h
      · rename_i hquote hdouble _ _
        exact ⟨_, _, by rwa [if_neg hquote, if_neg hdouble]⟩
    obtain ⟨word', ts', hts⟩ := hrest
    rw [List.cons_append, linesFrom, if_neg hfeed, linesFrom_of_lexFrom (before ++ [c]) hts]
    simp
  | c :: line, .single, word, ts, before, h => by
    have hrest : ∃ word, lexFrom (if c = '\'' then .plain else .single) word line = some ts := by
      unfold lexFrom at h
      split at h
      · rename_i hquote
        exact ⟨_, by rwa [if_pos hquote]⟩
      · rename_i hquote
        exact ⟨_, by rwa [if_neg hquote]⟩
    obtain ⟨word', hts⟩ := hrest
    rw [List.cons_append, linesFrom, linesFrom_of_lexFrom (before ++ [c]) hts]
    simp
  | c :: line, .double, word, ts, before, h => by
    have hrest : ∃ word, lexFrom (if c = '"' then .plain else .double) word line = some ts := by
      unfold lexFrom at h
      split at h
      · rename_i hquote
        exact ⟨_, by rwa [if_pos hquote]⟩
      split at h
      · cases h
      · rename_i hquote _
        exact ⟨_, by rwa [if_neg hquote]⟩
    obtain ⟨word', hts⟩ := hrest
    rw [List.cons_append, linesFrom, linesFrom_of_lexFrom (before ++ [c]) hts]
    simp

theorem lines_flatMap : ∀ {ls : List Str}, (∀ l ∈ ls, ∃ ts, lex l = some ts) →
    lines (ls.flatMap (· ++ ['\n'])) = some ls
  | [], _ => rfl
  | l :: ls, h => by
    rw [List.forall_mem_cons] at h
    obtain ⟨⟨ts, hts⟩, hrest⟩ := h
    have hline := @linesFrom_of_lexFrom (ls.flatMap (· ++ ['\n'])) l .plain none ts [] hts
    rw [List.flatMap_cons, List.append_assoc, List.singleton_append, lines, hline, lines_flatMap hrest]
    rfl

def isNameStart (c : Char) : Bool := ('a' ≤ c && c ≤ 'z') || ('A' ≤ c && c ≤ 'Z') || c = '_'

def isNameChar (c : Char) : Bool := isNameStart c || ('0' ≤ c && c ≤ '9')

def isName (name : Str) : Bool := name.head?.any isNameStart && name.all isNameChar

/-- The variable that a line assigns to, and its value. What comes after the `=` goes on with a word that has begun. -/
def assignment (line : Str) : Option (Str × Str) :=
  match line.dropWhile isNameChar with
  | '=' :: text =>
    if isName (line.takeWhile isNameChar) then
      match lexFrom .plain (some ⟨[], false⟩) text with
      | some [.word value] => some (line.takeWhile isNameChar, value)
      | _ => none
    else none
  | _ => none

/-- The assignments of a script that makes nothing else. -/
def assignments (script : Str) : Option (List (Str × Str)) := (lines script).bind (·.mapM assignment)

def assign (vars : Str → Option Str) (ps : List (Str × Str)) : Str → Option Str :=
  ps.foldl (fun vars p => Function.update vars p.1 (some p.2)) vars

/-- The variables after `script`. -/
def source (vars : Str → Option Str) (script : Str) : Option (Str → Option Str) :=
  (assignments script).map (assign vars)

/-- `line` gives the value `p.2` to the variable `p.1`. -/
def Assigns (p : Str × Str) (line : Str) : Prop :=
  isName p.1 = true ∧ ∃ text, line = p.1 ++ '=' :: text ∧ Reads p.2 text

/-- The characters of names have no other meaning. -/
theorem bare_of_isNameChar {name : Str} (h : ∀ c ∈ name, isNameChar c = true) : Bare name :=
  bare_of_forall h (forall_mem_of_all (by decide))

theorem assigns_lex {p : Str × Str} {line : Str} (h : Assigns p line) : ∃ ts, lex line = some ts := by
  obtain ⟨hname, text, rfl, htext⟩ := h
  have hbare : Bare (p.1 ++ ['=']) := by
    intro c hc
    rcases List.mem_append.1 hc with hc | hc
    · exact bare_of_isNameChar (List.all_eq_true.1 (Bool.and_eq_true_iff.1 hname).2) c hc
    · rw [List.mem_singleton.1 hc]
      decide
  obtain ⟨bare, hread⟩ := reads_append (reads_bare hbare (by simp)) htext
  have hline := hread none []
  rw [List.append_nil, List.append_assoc, List.singleton_append] at hline
  exact ⟨_, hline⟩

theorem assignment_of_assigns {p : Str × Str} {line : Str} (h : Assigns p line) : assignment line = some p := by
  obtain ⟨hname, text, rfl, htext⟩ := h
  have hall : ∀ c ∈ p.1, isNameChar c = true := List.all_eq_true.1 (Bool.and_eq_true_iff.1 hname).2
  have hstop : isNameChar '=' = false := by decide
  have htake : (p.1 ++ '=' :: text).takeWhile isNameChar = p.1 := by
    rw [List.takeWhile_append_of_pos hall, List.takeWhile_cons, hstop]
    simp
  have hdrop : (p.1 ++ '=' :: text).dropWhile isNameChar = '=' :: text := by
    rw [List.dropWhile_append_of_pos hall, List.dropWhile_cons, hstop]
    simp
  have hvalue : lexFrom .plain (some ⟨[], false⟩) text = some [.word p.2] := by
    obtain ⟨bare, htext⟩ := htext
    have hread := htext (some ⟨[], false⟩) []
    rwa [List.append_nil] at hread
  unfold assignment
  rw [hdrop, htake]
  simp only [hname, if_true, hvalue]

/-- **A script of assignments** makes them. -/
theorem assignments_flatMap {ps : List (Str × Str)} {ls : List Str} (h : List.Forall₂ Assigns ps ls) :
    assignments (ls.flatMap (· ++ ['\n'])) = some ps := by
  have hlines : ∀ l ∈ ls, ∃ ts, lex l = some ts := by
    induction h with
    | nil => simp
    | cons hp _ ih => exact List.forall_mem_cons.2 ⟨assigns_lex hp, ih⟩
  rw [assignments, lines_flatMap hlines, Option.bind_some]
  induction h with
  | nil => rfl
  | cons hp _ ih =>
    rw [List.forall_mem_cons] at hlines
    rw [List.mapM_cons, assignment_of_assigns hp, ih hlines.2]
    rfl

theorem assign_of_not_mem {n : Str} : ∀ {ps : List (Str × Str)} (vars : Str → Option Str), n ∉ ps.map Prod.fst →
    assign vars ps n = vars n
  | [], _, _ => rfl
  | p :: ps, vars, h => by
    rw [List.map_cons, List.mem_cons, not_or] at h
    have ih := @assign_of_not_mem n ps (Function.update vars p.1 (some p.2)) h.2
    rw [Function.update_of_ne h.1] at ih
    exact ih

theorem assign_of_mem {p : Str × Str} : ∀ {ps : List (Str × Str)} (vars : Str → Option Str),
    (ps.map Prod.fst).Nodup → p ∈ ps → assign vars ps p.1 = some p.2
  | q :: ps, vars, hnodup, hp => by
    rw [List.map_cons, List.nodup_cons] at hnodup
    rcases List.mem_cons.1 hp with rfl | hp
    · have hkeep := assign_of_not_mem (Function.update vars p.1 (some p.2)) hnodup.1
      rw [Function.update_self] at hkeep
      exact hkeep
    · exact assign_of_mem (Function.update vars q.1 (some q.2)) hnodup.2 hp

end Shell
