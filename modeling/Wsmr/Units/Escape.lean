import Wsmr.Comp

/-!
# Escaping for unit names (`src/units/escape.rs`)
-/

namespace Wsmr

open Text

/-- `\xHH` for every byte. -/
def char2cesc (s : Str) : Str := (utf8 s).flatMap fun b => '\\' :: 'x' :: hexByte b

/-- Characters that are kept. -/
def isAllowed (c : Char) : Bool := c = '.' || c = '_' || c = ':' || isAsciiAlphanumeric c

def escapeChar (c : Char) : Str := if c = '/' then ['-'] else if isAllowed c then [c] else char2cesc [c]

/-- With `start`, a leading `.` is escaped as well. -/
def simpleSystemdEscape (input : Str) (start : Bool) : Str :=
  if start && input.head? = some '.' then char2cesc ['.'] ++ input.tail.flatMap escapeChar
  else input.flatMap escapeChar

/-- What escaping produces. -/
def isEscaped (c : Char) : Bool := isAllowed c || c = '-' || c = '\\'

theorem of_isEscaped {c : Char} (h : isEscaped c = true) :
    isAsciiAlphanumeric c = true ∨ c ∈ [':', '_', '.', '-', '\\'] := by
  simp only [isEscaped, isAllowed, Bool.or_eq_true, decide_eq_true_eq] at h
  simp only [List.mem_cons, List.not_mem_nil, or_false]
  tauto

theorem isEscaped_hexDigit : ∀ n < 16, isEscaped (hexDigit n) = true := by decide

theorem isEscaped_of_mem_char2cesc {s : Str} {c : Char} (h : c ∈ char2cesc s) : isEscaped c = true := by
  obtain ⟨b, _, hb⟩ := List.mem_flatMap.1 h
  have hlt : b.toNat < 256 := b.toNat_lt
  simp only [hexByte, List.mem_cons, List.not_mem_nil, or_false] at hb
  rcases hb with rfl | rfl | rfl | rfl
  · decide
  · decide
  · exact isEscaped_hexDigit _ (by omega)
  · exact isEscaped_hexDigit _ (by omega)

theorem isEscaped_of_mem_escapeChar {c d : Char} (h : d ∈ escapeChar c) : isEscaped d = true := by
  unfold escapeChar at h
  split at h
  · obtain rfl := List.mem_singleton.1 h
    decide
  · split at h
    · rename_i hc
      obtain rfl := List.mem_singleton.1 h
      simp [isEscaped, hc]
    · exact isEscaped_of_mem_char2cesc h

theorem isEscaped_of_mem {input : Str} {start : Bool} {c : Char} (h : c ∈ simpleSystemdEscape input start) :
    isEscaped c = true := by
  have hflat : ∀ {s : Str}, c ∈ s.flatMap escapeChar → isEscaped c = true := fun h => by
    obtain ⟨d, _, hd⟩ := List.mem_flatMap.1 h
    exact isEscaped_of_mem_escapeChar hd
  unfold simpleSystemdEscape at h
  split at h
  · rcases List.mem_append.1 h with h | h
    · exact isEscaped_of_mem_char2cesc h
    · exact hflat h
  · exact hflat h

/-! ## What is kept, and what is not -/

theorem escape_of_allowed {input : Str} (h : ∀ c ∈ input, isAllowed c = true) :
    simpleSystemdEscape input false = input := by
  unfold simpleSystemdEscape
  rw [Bool.false_and, if_neg (by simp)]
  induction input with
  | nil => rfl
  | cons c input ih =>
    rw [List.forall_mem_cons] at h
    have hslash : c ≠ '/' := by
      rintro rfl
      exact absurd h.1 (by decide)
    have hc : escapeChar c = [c] := by simp [escapeChar, hslash, h.1]
    rw [List.flatMap_cons, hc, ih h.2]
    rfl

theorem backslash_mem_char2cesc (c : Char) : '\\' ∈ char2cesc [c] := by
  have hne : utf8 [c] ≠ [] := by
    have hlen : (String.utf8EncodeChar c).length = c.utf8Size := String.length_utf8EncodeChar c
    have hpos := Char.utf8Size_pos c
    intro h
    simp only [utf8, List.flatMap_cons, List.flatMap_nil, List.append_nil] at h
    simp only [h, List.length_nil] at hlen
    omega
  obtain ⟨b, hb⟩ := List.exists_mem_of_ne_nil _ hne
  exact List.mem_flatMap.2 ⟨b, hb, by simp⟩

/-- What is not kept leaves a backslash behind. -/
theorem backslash_mem_escape {input : Str} {c : Char} (h : c ∈ input) (hslash : c ≠ '/') (hc : isAllowed c = false) :
    '\\' ∈ simpleSystemdEscape input false := by
  unfold simpleSystemdEscape
  rw [Bool.false_and, if_neg (by simp)]
  refine List.mem_flatMap.2 ⟨c, h, ?_⟩
  simp only [escapeChar, if_neg hslash, hc, Bool.false_eq_true, if_false]
  exact backslash_mem_char2cesc c

/-! ## Ids of compositors -/

theorem isAllowed_of_mem_wmId {id : Str} (h : isWmId id = true) {c : Char} (hc : c ∈ id) (hdash : c ≠ '-') :
    isAllowed c = true := by
  unfold isAllowed
  rcases of_mem_wmId h hc with ha | ha
  · simp [ha]
  · simp only [List.mem_cons, List.not_mem_nil, or_false, hdash] at ha
    rcases ha with rfl | rfl | rfl <;> decide

end Wsmr
