import Wsmr.Lib.ExecLine
import Wsmr.Units.Lines
import Wsmr.Units.Quote

/-!
# Commands as the service manager reads them

Words are quoted for a shell, and read by the service manager (`ExecLine`): it decodes escapes inside of
quotes, and expands `%` and `$`. So a word gets through when there is nothing of that in it (`Verbatim`).
The path in the static units is not quoted at all.
-/

namespace Wsmr

open Text

/-! ## Quoted words -/

/-- A word that the manager reads as it was before it was quoted. -/
structure Quotable (p : Str) : Prop where
  escapeFree : ExecLine.EscapeFree p
  /-- It would escape the quote. -/
  last : p.getLast? ≠ some '\\'

theorem quotable_nil : Quotable [] := ⟨ExecLine.escapeFree_nil, by simp⟩

theorem quotable_cons {c : Char} {p : Str} :
    Quotable (c :: p) ↔ (c = '\\' → p ≠ [] ∧ ExecLine.escapeAt p = none) ∧ Quotable p := by
  constructor
  · rintro ⟨hesc, hlast⟩
    rw [ExecLine.escapeFree_cons] at hesc
    cases p with
    | nil => exact ⟨fun hc => absurd (by rw [hc]; rfl) hlast, quotable_nil⟩
    | cons d p =>
      rw [List.getLast?_cons_cons] at hlast
      exact ⟨fun hc => ⟨List.cons_ne_nil _ _, hesc.1 hc⟩, hesc.2, hlast⟩
  · rintro ⟨hesc, hp⟩
    refine ⟨ExecLine.escapeFree_cons.2 ⟨fun hc => (hesc hc).2, hp.escapeFree⟩, ?_⟩
    cases p with
    | nil => exact fun hlast => (hesc (Option.some.inj hlast)).1 rfl
    | cons d p =>
      rw [List.getLast?_cons_cons]
      exact hp.last

/-- What stands between the outer quotes. -/
def inQuotes (p : Str) : Str := p.flatMap fun c => if c = '\'' then "'\"'\"'".toList else [c]

theorem inQuotes_cons {c : Char} (hc : c ≠ '\'') (p : Str) : inQuotes (c :: p) = c :: inQuotes p := by
  simp [inQuotes, hc]

theorem inQuotes_quote (p : Str) : inQuotes ('\'' :: p) = '\'' :: '"' :: '\'' :: '"' :: '\'' :: inQuotes p := by
  have hquote : "'\"'\"'".toList = ['\'', '"', '\'', '"', '\''] := by decide
  unfold inQuotes
  rw [List.flatMap_cons, if_pos rfl, hquote]
  rfl

theorem inQuotes_append (p q : Str) : inQuotes (p ++ q) = inQuotes p ++ inQuotes q := List.flatMap_append

theorem inQuotes_of_not_mem : ∀ {p : Str}, '\'' ∉ p → inQuotes p = p
  | [], _ => rfl
  | c :: p, h => by
    rw [List.mem_cons, not_or] at h
    rw [inQuotes_cons (Ne.symm h.1), inQuotes_of_not_mem h.2]

theorem weight_inQuotes : ∀ p : Str, ExecLine.weight (inQuotes p) = ExecLine.weight p
  | [] => rfl
  | c :: p => by
    have ih := weight_inQuotes p
    by_cases hc : c = '\''
    · subst hc
      rw [inQuotes_quote]
      exact ih
    · rw [inQuotes_cons hc]
      simp only [ExecLine.weight, List.countP_cons] at ih ⊢
      rw [ih]

/-- Quoting does not change escapes. -/
theorem escapeAt_inQuotes {p : Str} (hp : p ≠ []) (s : Str) :
    ExecLine.escapeAt (inQuotes p ++ '\'' :: s) = ExecLine.escapeAt p := by
  by_cases hmem : '\'' ∈ p
  · obtain ⟨u, v, rfl, hu⟩ := List.eq_append_cons_of_mem hmem
    rw [inQuotes_append, inQuotes_of_not_mem hu, inQuotes_quote, List.append_assoc, List.cons_append]
    cases u with
    | nil => rfl
    | cons c u =>
      rw [ExecLine.escapeAt_append (Or.inr rfl) (List.cons_ne_nil _ _),
        ExecLine.escapeAt_append (Or.inr rfl) (List.cons_ne_nil _ _)]
  · rw [inQuotes_of_not_mem hmem, ExecLine.escapeAt_append (Or.inr rfl) hp]

/-- A quote is read in five steps. -/
theorem wordsFrom_quote (word s : Str) : ExecLine.wordsFrom 0 (some '\'') (some word)
    ('\'' :: '"' :: '\'' :: '"' :: '\'' :: s) = ExecLine.wordsFrom 0 (some '\'') (some (word ++ ['\''])) s := by
  rw [ExecLine.wordsFrom_close (by decide), ExecLine.wordsFrom_open (Or.inr rfl),
    ExecLine.wordsFrom_quoted (by decide) (by decide), ExecLine.wordsFrom_close (by decide),
    ExecLine.wordsFrom_open (Or.inl rfl)]
  rfl

theorem wordsFrom_inQuotes : ∀ {p : Str} (word s : Str), Quotable p →
    ExecLine.wordsFrom 0 (some '\'') (some word) (inQuotes p ++ '\'' :: s) =
      ExecLine.wordsFrom 0 none (some (word ++ p)) s
  | [], word, s, _ => by
    rw [List.append_nil]
    exact ExecLine.wordsFrom_close (by decide)
  | c :: p, word, s, h => by
    obtain ⟨hesc, hp⟩ := quotable_cons.1 h
    have ih := wordsFrom_inQuotes (word ++ [c]) s hp
    rw [List.append_assoc, List.singleton_append] at ih
    rw [← ih]
    by_cases hquote : c = '\''
    · subst hquote
      rw [inQuotes_quote]
      exact wordsFrom_quote word _
    · rw [inQuotes_cons hquote, List.cons_append]
      by_cases hc : c = '\\'
      · subst hc
        obtain ⟨hne, hnone⟩ := hesc rfl
        exact ExecLine.wordsFrom_backslash ((escapeAt_inQuotes hne s).trans hnone)
      · exact ExecLine.wordsFrom_quoted hc hquote

/-- An escape in a quoted word costs some weight. -/
theorem weight_inQuotes_lt : ∀ {p word s : Str} {ws : List Str}, ¬ Quotable p →
    ExecLine.wordsFrom 0 (some '\'') (some word) (inQuotes p ++ '\'' :: s) = some ws →
      ExecLine.weight ws.flatten < ExecLine.weight word + ExecLine.weight p + ExecLine.weight s
  | [], _, _, _, hp, _ => absurd quotable_nil hp
  | c :: p, word, s, ws, hp, h => by
    have hpush : ¬ Quotable p →
        ExecLine.wordsFrom 0 (some '\'') (some (word ++ [c])) (inQuotes p ++ '\'' :: s) = some ws →
          ExecLine.weight ws.flatten < ExecLine.weight word + ExecLine.weight (c :: p) + ExecLine.weight s := by
      intro hp' hrest
      have ih := weight_inQuotes_lt hp' hrest
      have hcons : ExecLine.weight (c :: p) = ExecLine.weight [c] + ExecLine.weight p :=
        ExecLine.weight_append [c] p
      rw [ExecLine.weight_append] at ih
      omega
    rw [quotable_cons] at hp
    by_cases hquote : c = '\''
    · subst hquote
      rw [inQuotes_quote] at h
      exact hpush (fun hq => hp ⟨fun he => absurd he (by decide), hq⟩) ((wordsFrom_quote word _).symm.trans h)
    rw [inQuotes_cons hquote, List.cons_append] at h
    by_cases hc : c = '\\'
    · subst hc
      cases hesc : ExecLine.escapeAt (inQuotes p ++ '\'' :: s) with
      | none =>
        rw [ExecLine.wordsFrom_backslash hesc] at h
        refine hpush (fun hq => hp ⟨fun _ => ?_, hq⟩) h
        have hne : p ≠ [] := by
          rintro rfl
          cases hesc
        exact ⟨hne, (escapeAt_inQuotes hne s).symm.trans hesc⟩
      | some e =>
        obtain ⟨d, skip⟩ := e
        rw [ExecLine.wordsFrom_escape hesc] at h
        have hle := ExecLine.weight_words_le h
        have hd := ExecLine.escapeAt_significant hesc
        have hsplit := ExecLine.weight_take_add_drop skip (inQuotes p ++ '\'' :: s)
        have htext : ExecLine.weight (inQuotes p ++ '\'' :: s) = ExecLine.weight p + ExecLine.weight s := by
          rw [ExecLine.weight_append, weight_inQuotes]
          rfl
        rw [ExecLine.weight_cons (by decide)]
        simp only [Option.getD_some, ExecLine.weight_append] at hle
        omega
    · rw [ExecLine.wordsFrom_quoted hc hquote] at h
      exact hpush (fun hq => hp ⟨fun he => absurd he hc, hq⟩) h

theorem quoted_append (p s : Str) : Shell.quoted p ++ s = '\'' :: (inQuotes p ++ '\'' :: s) := by
  unfold Shell.quoted inQuotes
  simp only [List.cons_append, List.append_assoc, List.nil_append]

theorem execBare_of_plain {p : Str} (h : ∀ c ∈ p, isPlain c = true) : ExecLine.Bare p := by
  have hne : ∀ c ∈ p, c ≠ ' ' ∧ c ≠ '\t' ∧ c ≠ '\n' ∧ c ≠ '\r' ∧ c ≠ '\'' ∧ c ≠ '"' ∧ c ≠ '\\' := fun c hc => by
    have hall := plain_ne (h c hc)
    refine ⟨hall _ ?_, hall _ ?_, hall _ ?_, hall _ ?_, hall _ ?_, hall _ ?_, hall _ ?_⟩ <;> decide
  refine ⟨fun c hc => ?_, ExecLine.escapeFree_of_not_mem fun hmem => ?_⟩
  · obtain ⟨h1, h2, h3, h4, h5, h6, -⟩ := hne c hc
    simp [ExecLine.isBlank, h1, h2, h3, h4, h5, h6]
  · exact absurd rfl (hne _ hmem).2.2.2.2.2.2

theorem quotable_of_plain {p : Str} (h : ∀ c ∈ p, isPlain c = true) : Quotable p := by
  refine ⟨(execBare_of_plain h).escapeFree, fun hlast => ?_⟩
  exact plain_ne (h _ (List.mem_of_getLast? hlast)) '\\' (by decide) rfl

/-- **A quoted word** is read back when nothing in it is an escape. -/
theorem wordsFrom_shlexQuote {p rest : Str} (hp : Quotable p) (hrest : ExecLine.Ends rest) :
    ExecLine.wordsFrom 0 none none (shlexQuote p ++ rest) = ExecLine.wordsFrom 0 none (some p) rest := by
  rcases shlexQuote_cases p with h | ⟨hne, hplain, h⟩
  · rw [h, quoted_append, ExecLine.wordsFrom_open (Or.inl rfl)]
    exact wordsFrom_inQuotes [] rest hp
  · rw [h, ExecLine.wordsFrom_append_bare hrest none (execBare_of_plain hplain) hne]
    rfl

theorem weight_shlexQuote (p : Str) : ExecLine.weight (shlexQuote p) = ExecLine.weight p := by
  rcases shlexQuote_cases p with h | ⟨-, -, h⟩
  · have hquoted := quoted_append p []
    rw [List.append_nil] at hquoted
    have hweight : ExecLine.weight ('\'' :: (inQuotes p ++ ['\''])) = ExecLine.weight (inQuotes p ++ ['\'']) := rfl
    rw [h, hquoted, hweight, ExecLine.weight_append, weight_inQuotes]
    rfl
  · rw [h]

theorem weight_shlexQuote_lt {p rest : Str} {ws : List Str} (hp : ¬ Quotable p)
    (h : ExecLine.wordsFrom 0 none none (shlexQuote p ++ rest) = some ws) :
    ExecLine.weight ws.flatten < ExecLine.weight p + ExecLine.weight rest := by
  rcases shlexQuote_cases p with hquote | ⟨-, hplain, -⟩
  · rw [hquote, quoted_append, ExecLine.wordsFrom_open (Or.inl rfl)] at h
    have hlt := weight_inQuotes_lt hp h
    rwa [show ExecLine.weight ((none : Option Str).getD []) = 0 from rfl, Nat.zero_add] at hlt
  · exact absurd (quotable_of_plain hplain) hp

/-! ## Joined words -/

theorem shlexJoin_cons (p q : Str) (parts : List Str) :
    shlexJoin (p :: q :: parts) = shlexQuote p ++ ' ' :: shlexJoin (q :: parts) := by
  have hblank : " ".toList = [' '] := by decide
  unfold shlexJoin
  rw [hblank, List.map_cons, List.map_cons, List.intercalate_cons_cons, List.append_assoc]
  rfl

theorem shlexJoin_singleton (p : Str) : shlexJoin [p] = shlexQuote p ++ [] := by
  rw [List.append_nil]
  exact List.intercalate_singleton

theorem weight_shlexJoin : ∀ parts : List Str, ExecLine.weight (shlexJoin parts) = ExecLine.weight parts.flatten
  | [] => by
    unfold shlexJoin
    rfl
  | [p] => by
    rw [shlexJoin_singleton, List.append_nil, weight_shlexQuote, List.flatten_singleton]
  | p :: q :: parts => by
    have ih := weight_shlexJoin (q :: parts)
    have hblank : ExecLine.weight (' ' :: shlexJoin (q :: parts)) = ExecLine.weight (shlexJoin (q :: parts)) := rfl
    rw [shlexJoin_cons, ExecLine.weight_append, weight_shlexQuote, hblank, ih, ← ExecLine.weight_append]
    rfl

theorem ends_blank (s : Str) : ExecLine.Ends (' ' :: s) := Or.inr ⟨' ', s, rfl, rfl⟩

theorem words_shlexJoin : ∀ {parts : List Str}, (∀ p ∈ parts, Quotable p) →
    ExecLine.words (shlexJoin parts) = some parts
  | [], _ => by
    unfold shlexJoin
    rfl
  | [p], h => by
    rw [shlexJoin_singleton, ExecLine.words, wordsFrom_shlexQuote (h p List.mem_cons_self) (Or.inl rfl)]
    rfl
  | p :: q :: parts, h => by
    rw [List.forall_mem_cons] at h
    rw [shlexJoin_cons, ExecLine.words, wordsFrom_shlexQuote h.1 (ends_blank _), ExecLine.wordsFrom_blank rfl,
      words_shlexJoin h.2]
    rfl

/-- One escape, and there is less in all of the words than was written. -/
theorem weight_words_lt : ∀ {parts ws : List Str}, ¬ (∀ p ∈ parts, Quotable p) →
    ExecLine.words (shlexJoin parts) = some ws → ExecLine.weight ws.flatten < ExecLine.weight parts.flatten
  | [], _, hparts, _ => absurd (by simp) hparts
  | [p], ws, hparts, h => by
    rw [shlexJoin_singleton] at h
    have hlt := weight_shlexQuote_lt (fun hp => hparts (by simpa using hp)) h
    simpa [ExecLine.weight] using hlt
  | p :: q :: parts, ws, hparts, h => by
    rw [shlexJoin_cons, ExecLine.words] at h
    have hflat : ExecLine.weight (p :: q :: parts).flatten =
        ExecLine.weight p + ExecLine.weight (q :: parts).flatten := ExecLine.weight_append _ _
    rw [hflat]
    by_cases hp : Quotable p
    · rw [wordsFrom_shlexQuote hp (ends_blank _), ExecLine.wordsFrom_blank rfl] at h
      obtain ⟨ws', hws', rfl⟩ := Option.map_eq_some_iff.1 h
      have ih := weight_words_lt (fun hall => hparts (List.forall_mem_cons.2 ⟨hp, hall⟩)) hws'
      have hcons : ExecLine.weight (p :: ws').flatten = ExecLine.weight p + ExecLine.weight ws'.flatten :=
        ExecLine.weight_append _ _
      simp only [Option.toList_some, List.singleton_append, hcons]
      omega
    · have hlt := weight_shlexQuote_lt hp h
      rw [← weight_shlexJoin (q :: parts)]
      exact hlt

/-! ## Commands of drop-ins -/

/-- A word that gets through to the command. -/
structure Verbatim (p : Str) : Prop extends Quotable p where
  inert : ExecLine.Inert p

theorem weight_flatten_replace {inst : Str} (hinst : ExecLine.weight inst = 2) (before after : List Str) :
    ExecLine.weight (before ++ inst :: after).flatten =
      ExecLine.weight (before ++ "%I".toList :: after).flatten := by
  have hwritten : ExecLine.weight "%I".toList = 2 := by decide
  simp only [List.flatten_append, List.flatten_cons, ExecLine.weight_append, hinst, hwritten]

theorem weight_expand_words : ∀ ws : List Str, ExecLine.weight (ws.map (ExecLine.mute "II".toList).expand).flatten ≤
    ExecLine.weight ws.flatten
  | [] => Nat.le_refl _
  | w :: ws => by
    have ih := weight_expand_words ws
    have hw := @ExecLine.weight_expandFrom_le "II".toList (by decide) w 0
    rw [List.drop_zero, ← ExecLine.Manager.expand] at hw
    rw [List.map_cons, List.flatten_cons, List.flatten_cons, ExecLine.weight_append, ExecLine.weight_append]
    omega

/-- What the manager reads of a command with the instance in it. -/
theorem reads_command_iff {before after : List Str} : (∀ m : ExecLine.Manager,
    m.read (shlexJoin (before ++ "%I".toList :: after)) = some (before ++ m.inst :: after)) ↔
      ∀ p ∈ before ++ after, Verbatim p := by
  have hwritten : Quotable "%I".toList := by
    have hesc : ExecLine.EscapeFree "%I".toList := by decide
    exact ⟨hesc, by decide⟩
  have hexpand : ∀ m : ExecLine.Manager, m.expand "%I".toList = m.inst := fun m => by
    have hlit : "%I".toList = ['%', 'I'] := by decide
    rw [hlit]
    exact List.append_nil _
  generalize hI : "%I".toList = written at *
  constructor
  · intro h
    have hquotable : ∀ p ∈ before ++ written :: after, Quotable p := by
      by_contra hnot
      obtain ⟨ws, hws, hread⟩ := Option.map_eq_some_iff.1 (h (ExecLine.mute "II".toList))
      have hlt := weight_words_lt hnot hws
      have hle := weight_expand_words ws
      have hsame := @weight_flatten_replace "II".toList (by decide) before after
      have hinst : (ExecLine.mute "II".toList).inst = "II".toList := rfl
      rw [hread, hinst] at hle
      rw [hI] at hsame
      omega
    have hself : ∀ m : ExecLine.Manager, ∀ p ∈ before ++ after, m.expand p = p := by
      intro m
      have hm := h m
      rw [ExecLine.Manager.read, words_shlexJoin hquotable, Option.map_some, Option.some.injEq, List.map_append,
        List.map_cons] at hm
      obtain ⟨hbefore, hrest⟩ := List.append_inj hm (List.length_map _)
      obtain ⟨-, hafter⟩ := List.cons.inj hrest
      have hall : (before ++ after).map m.expand = (before ++ after).map id := by
        rw [List.map_append, hbefore, hafter, List.map_id]
      exact List.map_inj_left.1 hall
    intro p hp
    have hmem : p ∈ before ++ written :: after := by
      rw [List.mem_append] at hp
      rw [List.mem_append, List.mem_cons]
      exact hp.imp_right Or.inr
    exact ⟨hquotable p hmem, ExecLine.expand_eq_self_iff.1 fun m => hself m p hp⟩
  · intro h m
    have hquotable : ∀ p ∈ before ++ written :: after, Quotable p := by
      intro p hp
      rw [List.mem_append, List.mem_cons, or_left_comm] at hp
      rcases hp with rfl | hp
      · exact hwritten
      · exact (h p (List.mem_append.2 hp)).toQuotable
    have hself : ∀ p ∈ before ++ after, m.expand p = p := fun p hp => ExecLine.expand_inert (h p hp).inert
    rw [List.forall_mem_append] at hself
    rw [ExecLine.Manager.read, words_shlexJoin hquotable, Option.map_some, List.map_append, List.map_cons, hexpand,
      List.map_congr_left hself.1, List.map_congr_left hself.2, List.map_id', List.map_id']

/-! ## Drop-ins -/

/-- The commands of a unit file: an empty `ExecStart=` takes back those before it. -/
def execStarts (text : Str) : List Str :=
  ((text.splitOn '\n').filterMap (stripPrefix "ExecStart=".toList)).foldl
    (fun commands value => if value = [] then [] else commands ++ [value]) []

/-- What a drop-in says is the command, and nothing else. -/
def ReadAs (dropin : Option Str) (command : Str → Option (List Str)) : Prop :=
  ∀ (m : ExecLine.Manager) (words : List Str), command m.inst = some words →
    ∃ text, dropin = some text ∧ (execStarts text).map m.read = [some words]

theorem shlexQuote_ne_nil (p : Str) : shlexQuote p ≠ [] := by
  rcases shlexQuote_cases p with h | ⟨hne, -, h⟩
  · rw [h]
    exact List.cons_ne_nil _ _
  · rwa [h]

theorem shlexJoin_ne_nil : ∀ {parts : List Str}, parts ≠ [] → shlexJoin parts ≠ []
  | [], h => absurd rfl h
  | [p], _ => by
    rw [shlexJoin_singleton, List.append_nil]
    exact shlexQuote_ne_nil p
  | p :: q :: parts, _ => by
    rw [shlexJoin_cons]
    exact List.append_ne_nil_of_right_ne_nil _ (List.cons_ne_nil _ _)

/-- Whatever comes before the command of a drop-in. -/
theorem execStarts_override (before : Str) {value : Str} (hne : value ≠ []) (hvalue : '\n' ∉ value) :
    execStarts (before ++ '\n' :: unlines ["[Service]".toList, "ExecStart=".toList, "ExecStart=".toList ++ value]) =
      [value] := by
  have hlines : ∀ l ∈ ["[Service]".toList, "ExecStart=".toList, "ExecStart=".toList ++ value], '\n' ∉ l := by
    have hfixed : '\n' ∉ "[Service]".toList ∧ '\n' ∉ "ExecStart=".toList := by decide
    simp only [List.forall_mem_cons, List.mem_append, not_or, List.not_mem_nil, false_implies, implies_true, and_true]
    exact ⟨hfixed.1, hfixed.2, hfixed.2, hvalue⟩
  have hservice : stripPrefix "ExecStart=".toList "[Service]".toList = none := by decide
  have hempty : stripPrefix "ExecStart=".toList "ExecStart=".toList = some [] := by decide
  have hend : stripPrefix "ExecStart=".toList [] = none := by decide
  unfold execStarts
  rw [List.splitOn_append_cons_self, unlines, splitOn_terminated hlines, List.filterMap_append]
  simp only [List.filterMap_cons, List.filterMap_nil, List.cons_append, List.nil_append, hservice, hempty, hend,
    stripPrefix_append, List.foldl_append, List.foldl_cons, List.foldl_nil, if_true, if_neg hne]

theorem unlines_eq_append : ∀ {ls : List Str}, ls ≠ [] → ∃ s, unlines ls = s ++ ['\n']
  | [], h => absurd rfl h
  | [l], _ => ⟨l, List.append_nil _⟩
  | l :: k :: ls, _ => by
    obtain ⟨s, hs⟩ := unlines_eq_append (List.cons_ne_nil k ls)
    exact ⟨l ++ ['\n'] ++ s, by rw [unlines_cons, hs, List.append_assoc _ s]⟩

theorem execStarts_dropin {what text : Str} {command : List Str} {input : DropinInput} (hne : command ≠ [])
    (hcommand : ∀ w ∈ command, '\n' ∉ w)
    (h : dropinOf input (descriptionLine what input ++ override (some command)) = some text) :
    execStarts text = [shlexJoin command] := by
  obtain rfl := dropinOf_eq_some h
  have hlead := @unlines_eq_append (["# injected by wsmr, do not edit".toList, "[Unit]".toList,
    "X-UWSMMark=".toList ++ input.id] ++ if describedBy input = [] then []
      else ["Description=".toList ++ what ++ " for ".toList ++ descSubstring input]) (List.cons_ne_nil _ _)
  obtain ⟨before, hbefore⟩ := hlead
  have hnewline : '\n' ∉ shlexJoin command := fun hmem => by
    obtain ⟨w, hw, hmem⟩ := newline_mem_shlexJoin.1 hmem
    exact hcommand w hw hmem
  unfold dropinLines
  rw [unlines_append, hbefore, List.append_assoc]
  exact execStarts_override before (shlexJoin_ne_nil hne) hnewline

/-- What a drop-in has to get through. -/
theorem readAs_iff {what : Str} {input : DropinInput} {before after : List Str} {command : Str → Option (List Str)}
    (hcommand : ∀ inst, command inst = some (before ++ inst :: after)) (hfree : ∀ p ∈ before ++ after, '\n' ∉ p) :
    ReadAs (dropinOf input (descriptionLine what input ++ override (command "%I".toList))) command ↔
      ∀ p ∈ before ++ after, Verbatim p := by
  have hI : '\n' ∉ "%I".toList := by decide
  have hfree' : ∀ w ∈ before ++ "%I".toList :: after, '\n' ∉ w := by
    rw [List.forall_mem_append] at hfree
    exact List.forall_mem_append.2 ⟨hfree.1, List.forall_mem_cons.2 ⟨hI, hfree.2⟩⟩
  rw [← reads_command_iff, hcommand]
  generalize "%I".toList = written at hfree' ⊢
  cases h : dropinOf input (descriptionLine what input ++ override (some (before ++ written :: after))) with
  | none => cases (dropinOf_eq_none h).2
  | some text =>
    have hstarts := execStarts_dropin (by simp) hfree' h
    constructor
    · intro hread m
      obtain ⟨text', htext, hmap⟩ := hread m _ (hcommand m.inst)
      obtain rfl := Option.some.inj htext
      rw [hstarts] at hmap
      exact (List.cons.inj hmap).1
    · intro hread m words hwords
      rw [hcommand] at hwords
      obtain rfl := Option.some.inj hwords
      refine ⟨text, rfl, ?_⟩
      rw [hstarts, List.map_singleton, hread]

/-- The words of the commands that are always the same. -/
def fixedWords : List Str := ["aux".toList, "exec".toList, "--".toList, "prepare-env".toList]

theorem verbatim_fixed : ∀ w ∈ fixedWords, Verbatim w ∧ '\n' ∉ w := by
  have hplain : ∀ w ∈ fixedWords, w.all isPlain = true ∧ ExecLine.Inert w ∧ '\n' ∉ w := by decide
  intro w hw
  obtain ⟨hw, hinert, hfree⟩ := hplain w hw
  exact ⟨⟨quotable_of_plain (List.all_eq_true.1 hw), hinert⟩, hfree⟩

theorem readAs_texts_iff {what : Str} {input : DropinInput} {before after texts : List Str}
    {command : Str → Option (List Str)} (hcommand : ∀ inst, command inst = some (before ++ inst :: after))
    (hwords : ∀ p ∈ before ++ after, p ∈ fixedWords ∨ p ∈ texts) (htexts : ∀ p ∈ texts, p ∈ before ++ after)
    (hfree : ∀ p ∈ texts, '\n' ∉ p) :
    ReadAs (dropinOf input (descriptionLine what input ++ override (command "%I".toList))) command ↔
      ∀ p ∈ texts, Verbatim p := by
  rw [readAs_iff hcommand fun p hp => (hwords p hp).elim (fun h => (verbatim_fixed p h).2) (hfree p)]
  constructor
  · exact fun h p hp => h p (htexts p hp)
  · exact fun h p hp => (hwords p hp).elim (fun hfixed => (verbatim_fixed p hfixed).1) (h p)

/-- The words of the service's drop-in that are not fixed. -/
def serviceTexts (input : DropinInput) : List Str :=
  if (serviceArgs input).isEmpty then [] else input.binPath :: serviceArgs input

def preloaderTexts (input : DropinInput) : List Str :=
  if !(desktopArgs input).isEmpty || firstIsAbsolute input then
    input.binPath :: desktopArgs input ++ if firstIsAbsolute input then input.cmdline.take 1 else []
  else []

theorem service_readAs_iff {input : DropinInput} (hfree : ∀ p ∈ serviceTexts input, '\n' ∉ p) :
    ReadAs (serviceDropin input) (serviceCommand · input) ↔ ∀ p ∈ serviceTexts input, Verbatim p := by
  rw [serviceDropin_eq]
  cases hempty : (serviceArgs input).isEmpty with
  | true =>
    have hnone : ∀ inst, serviceCommand inst input = none := fun inst => if_pos hempty
    simp [ReadAs, hnone, serviceTexts, hempty]
  | false =>
    have htexts : serviceTexts input = input.binPath :: serviceArgs input := if_neg (by simp [hempty])
    rw [htexts] at hfree ⊢
    refine @readAs_texts_iff _ _ [input.binPath, "aux".toList, "exec".toList, "--".toList] (serviceArgs input) _
      (serviceCommand · input) (fun inst => if_neg (by simp [hempty])) ?_ ?_ hfree
    · intro p hp
      simp only [List.cons_append, List.nil_append, List.mem_cons, fixedWords, List.not_mem_nil, or_false] at hp ⊢
      tauto
    · intro p hp
      simp only [List.cons_append, List.nil_append, List.mem_cons] at hp ⊢
      tauto

theorem preloader_readAs_iff {input : DropinInput} (hfree : ∀ p ∈ preloaderTexts input, '\n' ∉ p) :
    ReadAs (preloaderDropin input) (preloaderCommand · input) ↔ ∀ p ∈ preloaderTexts input, Verbatim p := by
  rw [preloaderDropin_eq]
  cases hneeded : !(desktopArgs input).isEmpty || firstIsAbsolute input with
  | false =>
    have hnone : ∀ inst, preloaderCommand inst input = none := fun inst => if_neg (by simp [hneeded])
    simp [ReadAs, hnone, preloaderTexts, hneeded]
  | true =>
    have htexts : preloaderTexts input = _ := if_pos hneeded
    rw [htexts] at hfree ⊢
    refine @readAs_texts_iff _ _
      ([input.binPath, "aux".toList, "prepare-env".toList] ++ desktopArgs input ++ ["--".toList])
      (if firstIsAbsolute input then input.cmdline.take 1 else []) _ (preloaderCommand · input)
      (fun inst => ?_) ?_ ?_ hfree
    · unfold preloaderCommand
      rw [if_pos hneeded]
      simp only [List.append_assoc, List.cons_append, List.nil_append]
    · intro p hp
      simp only [List.mem_append, List.mem_cons, fixedWords, List.not_mem_nil, or_false] at hp ⊢
      tauto
    · intro p hp
      simp only [List.mem_append, List.mem_cons, List.not_mem_nil, or_false] at hp ⊢
      tauto

section
variable {input : DropinInput} (hfree : ∀ p ∈ [input.binPath] ++ input.cmdline ++ input.cliArgs ++ input.desktopNames ++
  input.cliDesktopNames, '\n' ∉ p)
include hfree

theorem newline_not_mem_serviceTexts {p : Str} (hp : p ∈ serviceTexts input) : '\n' ∉ p := by
  simp only [List.forall_mem_append, List.forall_mem_singleton] at hfree
  obtain ⟨⟨⟨⟨hpath, hcmdline⟩, hargs⟩, -⟩, -⟩ := hfree
  unfold serviceTexts at hp
  split at hp
  · cases hp
  rcases List.mem_cons.1 hp with rfl | hp
  · exact hpath
  unfold serviceArgs at hp
  split at hp
  · exact hcmdline p hp
  split at hp
  · rcases List.mem_cons.1 hp with rfl | hp
    · exact List.not_mem_nil
    · exact hargs p hp
  · cases hp

theorem newline_not_mem_preloaderTexts {p : Str} (hp : p ∈ preloaderTexts input) : '\n' ∉ p := by
  have hflags : '\n' ∉ "-eD".toList ∧ '\n' ∉ "-D".toList ∧ '\n' ∉ ":".toList := by decide
  simp only [List.forall_mem_append, List.forall_mem_singleton] at hfree
  obtain ⟨⟨⟨⟨hpath, hcmdline⟩, -⟩, hnames⟩, hcli⟩ := hfree
  have hjoin : ∀ {names : List Str}, (∀ n ∈ names, '\n' ∉ n) → '\n' ∉ List.intercalate ":".toList names := by
    intro names hnames hmem
    obtain ⟨n, hn, hmem⟩ := (mem_intercalate hflags.2.2).1 hmem
    exact hnames n hn hmem
  have hdesktop : ∀ q ∈ desktopArgs input, '\n' ∉ q := by
    intro q hq
    unfold desktopArgs at hq
    split at hq
    · rcases List.mem_cons.1 hq with rfl | hq
      · exact hflags.1
      · exact List.mem_singleton.1 hq ▸ hjoin hcli
    split at hq
    · rcases List.mem_cons.1 hq with rfl | hq
      · exact hflags.2.1
      · exact List.mem_singleton.1 hq ▸ hjoin hnames
    · cases hq
  unfold preloaderTexts at hp
  split at hp
  · rw [List.cons_append, List.mem_cons, List.mem_append] at hp
    rcases hp with rfl | hp | hp
    · exact hpath
    · exact hdesktop p hp
    · split at hp
      · exact hcmdline p (List.mem_of_mem_take hp)
      · cases hp
  · cases hp

end

end Wsmr
