import Wsmr.App.Field

/-!
# Tokens of `Exec`, from left to right

A token is a list of `Piece`s. The original looks for substrings instead; what it finds is what the pieces say,
for `%%` always (`containsStr_escape`), for a field in a token without `%%` (`containsStr_code`, `replace_code`).
-/

namespace Wsmr

open Text

/-! ## Patterns of two characters -/

section
variable {a b c d : Char} {rep s : Str}

theorem pair_prefix_iff : [a, b] <+: c :: d :: s ↔ c = a ∧ d = b := by
  simp [List.cons_prefix_cons, eq_comm]

theorem containsStr_pair :
    containsStr [a, b] (c :: d :: s) = (decide (c = a ∧ d = b) || containsStr [a, b] (d :: s)) := by
  unfold containsStr
  rw [splitFirst]
  by_cases h : c = a ∧ d = b
  · rw [if_pos (pair_prefix_iff.2 h)]
    simp [h]
  · rw [if_neg (mt pair_prefix_iff.1 h)]
    simp [h]

theorem containsStr_pair_single : containsStr [a, b] [c] = false := by
  simp [containsStr, splitFirst, List.cons_prefix_cons]

theorem containsStr_pair_skip (h : c ≠ a) : containsStr [a, b] (c :: s) = containsStr [a, b] s := by
  cases s with
  | nil => simp [containsStr, splitFirst]
  | cons d s => simp [containsStr_pair, h]

theorem replace_pair : replace [a, b] rep (c :: d :: s) =
    if c = a ∧ d = b then rep ++ replace [a, b] rep s else c :: replace [a, b] rep (d :: s) := by
  unfold replace
  rw [replaceFrom]
  by_cases h : c = a ∧ d = b
  · rw [if_pos (pair_prefix_iff.2 h), if_pos h]
    rfl
  · rw [if_neg (mt pair_prefix_iff.1 h), if_neg h]

theorem replace_pair_single : replace [a, b] rep [c] = [c] := by
  simp [replace, replaceFrom, List.cons_prefix_cons]

theorem replace_pair_skip (h : c ≠ a) : replace [a, b] rep (c :: s) = c :: replace [a, b] rep s := by
  cases s with
  | nil => rw [replace_pair_single]; rfl
  | cons d s => rw [replace_pair, if_neg fun hc => h hc.1]

end

theorem replace_self {pat rep : Str} (h : pat ≠ []) : replace pat rep pat = rep := by
  have hp := @replace_pattern _ rep h []
  rwa [List.append_nil, show replace pat rep [] = [] from rfl, List.append_nil] at hp

/-! ## Pieces -/

inductive Piece where
  | char (c : Char)
  | percent
  | code (c : Char)
  deriving DecidableEq, Repr

/-- A token from left to right; `%%` stands for one character, `%` and a letter for a field. -/
def pieces : Str → List Piece
  | [] => []
  | [c] => [.char c]
  | c :: d :: s =>
    if c = '%' && d = '%' then .percent :: pieces s
    else if c = '%' && isAsciiAlphabetic d then .code d :: pieces s
    else .char c :: pieces (d :: s)

/-- The piece as it stands in the token. -/
def Piece.source : Piece → Str
  | .char c => [c]
  | .percent => ['%', '%']
  | .code c => ['%', c]

def Piece.code? : Piece → Option Char
  | .code c => some c
  | _ => none

/-- The field codes of a token. -/
def codes (tok : Str) : List Char := (pieces tok).filterMap Piece.code?

def escapes (tok : Str) : Bool := (pieces tok).contains .percent

theorem source_pieces (tok : Str) : (pieces tok).flatMap Piece.source = tok := by
  fun_induction pieces tok with
  | case1 => rfl
  | case2 c => rfl
  | case3 c d s h ih =>
    simp only [Bool.and_eq_true, decide_eq_true_eq] at h
    simp [Piece.source, ih, h.1, h.2]
  | case4 c d s h h' ih =>
    simp only [Bool.and_eq_true, decide_eq_true_eq] at h'
    simp [Piece.source, ih, h'.1]
  | case5 c d s h h' ih => simp [Piece.source, ih]

theorem countFields_eq (tok : Str) : countFields tok = (codes tok).length := by
  unfold codes
  fun_induction pieces tok with
  | case1 => rfl
  | case2 c => rfl
  | case3 c d s h ih => rw [countFields, if_pos h, ih]; rfl
  | case4 c d s h h' ih => rw [countFields, if_neg h, if_pos h', ih]; rfl
  | case5 c d s h h' ih => rw [countFields, if_neg h, if_neg h', ih]; rfl

theorem ne_percent_of_alphabetic {c : Char} (h : isAsciiAlphabetic c = true) : c ≠ '%' := by
  rintro rfl
  revert h
  decide

theorem containsStr_escape (tok : Str) : containsStr "%%".toList tok = escapes tok := by
  show containsStr ['%', '%'] tok = escapes tok
  unfold escapes
  fun_induction pieces tok with
  | case1 => rfl
  | case2 c => rw [containsStr_pair_single]; rfl
  | case3 c d s h ih =>
    simp only [Bool.and_eq_true, decide_eq_true_eq] at h
    simp [containsStr_pair, h]
  | case4 c d s h h' ih =>
    simp only [Bool.and_eq_true, decide_eq_true_eq] at h h'
    rw [containsStr_pair, decide_eq_false h, containsStr_pair_skip (ne_percent_of_alphabetic h'.2), ih]
    simp
  | case5 c d s h h' ih =>
    simp only [Bool.and_eq_true, decide_eq_true_eq] at h
    rw [containsStr_pair, decide_eq_false h, ih]
    simp

theorem containsStr_code {x : Char} (hx : isAsciiAlphabetic x = true) (tok : Str) (h : escapes tok = false) :
    containsStr ['%', x] tok = (codes tok).contains x := by
  unfold escapes codes at *
  fun_induction pieces tok with
  | case1 => rfl
  | case2 c => rw [containsStr_pair_single]; rfl
  | case3 c d s hp ih => simp at h
  | case4 c d s hp hc ih =>
    simp only [Bool.and_eq_true, decide_eq_true_eq] at hc
    rw [containsStr_pair, containsStr_pair_skip (ne_percent_of_alphabetic hc.2), ih (by simpa using h)]
    simp [hc.1, Piece.code?, eq_comm]
  | case5 c d s hp hc ih =>
    have hne : ¬ (c = '%' ∧ d = x) := by
      rintro ⟨rfl, rfl⟩
      exact hc (by simp [hx])
    rw [containsStr_pair, decide_eq_false hne, ih (by simpa using h)]
    simp [Piece.code?]

/-- What is copied of a piece when `%%` is replaced. -/
def Piece.unescaped : Piece → Str
  | .percent => ['%']
  | p => p.source

theorem replace_escape (tok : Str) : replace ['%', '%'] ['%'] tok = (pieces tok).flatMap Piece.unescaped := by
  fun_induction pieces tok with
  | case1 => rfl
  | case2 c => rw [replace_pair_single]; rfl
  | case3 c d s h ih =>
    simp only [Bool.and_eq_true, decide_eq_true_eq] at h
    rw [replace_pair, if_pos h, ih]
    rfl
  | case4 c d s h h' ih =>
    simp only [Bool.and_eq_true, decide_eq_true_eq] at h h'
    rw [replace_pair, if_neg h, replace_pair_skip (ne_percent_of_alphabetic h'.2), ih, h'.1]
    rfl
  | case5 c d s h h' ih =>
    simp only [Bool.and_eq_true, decide_eq_true_eq] at h
    rw [replace_pair, if_neg h, ih]
    rfl

/-- What is copied of a piece when the field `x` is replaced. -/
def Piece.filled (x : Char) (rep : Str) : Piece → Str
  | .code c => if c = x then rep else ['%', c]
  | p => p.source

theorem replace_code {x : Char} (hx : isAsciiAlphabetic x = true) (rep tok : Str) (h : escapes tok = false) :
    replace ['%', x] rep tok = (pieces tok).flatMap (Piece.filled x rep) := by
  unfold escapes at h
  fun_induction pieces tok with
  | case1 => rfl
  | case2 c => rw [replace_pair_single]; rfl
  | case3 c d s hp ih => simp at h
  | case4 c d s hp hc ih =>
    simp only [Bool.and_eq_true, decide_eq_true_eq] at hc
    rw [replace_pair, replace_pair_skip (ne_percent_of_alphabetic hc.2), ih (by simpa using h)]
    simp only [hc.1, true_and, List.flatMap_cons, Piece.filled]
    split <;> rfl
  | case5 c d s hp hc ih =>
    have hne : ¬ (c = '%' ∧ d = x) := by
      rintro ⟨rfl, rfl⟩
      exact hc (by simp [hx])
    rw [replace_pair, if_neg hne, ih (by simpa using h)]
    rfl

/-- A token has one field at most. -/
theorem codes_eq {x : Char} {tok : Str} (hcount : countFields tok ≤ 1) (h : x ∈ codes tok) : codes tok = [x] := by
  rw [countFields_eq] at hcount
  obtain ⟨y, hy⟩ := List.length_eq_one_iff.1 (Nat.le_antisymm hcount (List.length_pos_of_mem h))
  rw [hy] at h ⊢
  rw [List.mem_singleton.1 h]

/-- The one field of a token. -/
theorem pieces_eq {tok : Str} {x : Char} (h : codes tok = [x]) :
    ∃ l r, pieces tok = l ++ .code x :: r ∧ ∀ p ∈ l ++ r, p.code? = none := by
  obtain ⟨l, p, r, hp, hl, hx, hr⟩ := List.filterMap_eq_cons_iff.1 h
  have hcode : p = .code x := by
    cases p with
    | code c => rw [Option.some.inj hx]
    | _ => cases hx
  refine ⟨l, r, hcode ▸ hp, fun p hp => ?_⟩
  rcases List.mem_append.1 hp with hp | hp
  · exact hl p hp
  · exact List.filterMap_eq_nil_iff.1 hr p hp

theorem filled_of_code?_eq_none {x : Char} {rep : Str} {p : Piece} (h : p.code? = none) :
    p.filled x rep = p.source := by
  cases p with
  | code c => cases h
  | _ => rfl

/-- Replacing the one field of a token. -/
theorem replace_field {tok : Str} {x : Char} (hx : isAsciiAlphabetic x = true) (hcodes : codes tok = [x])
    (h : escapes tok = false) :
    ∃ a b, tok = a ++ ['%', x] ++ b ∧ ∀ rep, replace ['%', x] rep tok = a ++ rep ++ b := by
  obtain ⟨l, r, hp, hnone⟩ := pieces_eq hcodes
  refine ⟨l.flatMap Piece.source, r.flatMap Piece.source, ?_, fun rep => ?_⟩
  · rw [← source_pieces tok, hp]
    simp [Piece.source]
  · rw [replace_code hx rep tok h, hp, List.flatMap_append, List.flatMap_cons,
      List.flatMap_congr fun p hl => filled_of_code?_eq_none (hnone p (List.mem_append_left r hl)),
      List.flatMap_congr fun p hr => filled_of_code?_eq_none (hnone p (List.mem_append_right l hr)), List.append_assoc]
    simp [Piece.filled]

end Wsmr
