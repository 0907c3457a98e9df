import Wsmr.Lib.Text

/-!
# Variable-name filtering (`src/filter.rs`)
-/

namespace Wsmr

open Text

def dropShVars : List Str := ["_".toList, "SHELL".toList, "PWD".toList, "OLDWD".toList]

/-- `char::is_ascii_alphabetic` -/
def isAsciiAlphabetic (c : Char) : Bool := ('A' ≤ c && c ≤ 'Z') || ('a' ≤ c && c ≤ 'z')

/-- `char::is_ascii_alphanumeric` -/
def isAsciiAlphanumeric (c : Char) : Bool := isAsciiAlphabetic c || ('0' ≤ c && c ≤ '9')

def isWordChar (c : Char) : Bool := isAsciiAlphanumeric c || c == '_'

/-- Letter-led, or an underscore followed by at least one word character. -/
def isValidName : Str → Bool
  | [] => false
  | c :: rest =>
    if isAsciiAlphabetic c then rest.all isWordChar
    else if c = '_' then !rest.isEmpty && rest.all isWordChar
    else false

def keepName (name : Str) : Bool := !dropShVars.contains name && isValidName name

theorem isWordChar_of_mem {name : Str} (h : isValidName name = true) : ∀ c ∈ name, isWordChar c = true := by
  cases name with
  | nil => simp
  | cons c rest =>
    intro d hd
    simp only [isValidName] at h
    split at h
    · rename_i hc
      rcases List.mem_cons.1 hd with rfl | hd
      · simp [isWordChar, isAsciiAlphanumeric, hc]
      · exact List.all_eq_true.1 h d hd
    · split at h
      · rename_i hc
        rcases List.mem_cons.1 hd with rfl | hd
        · simp [isWordChar, hc]
        · exact List.all_eq_true.1 (Bool.and_eq_true_iff.1 h).2 d hd
      · exact absurd h (by simp)

theorem keepName_valid {name : Str} (h : keepName name = true) : isValidName name = true :=
  (Bool.and_eq_true_iff.1 h).2

/-- A kept name contains no character that is not a word character. -/
theorem not_mem_of_keepName {name : Str} (h : keepName name = true) {c : Char}
    (hc : isWordChar c = false) : c ∉ name := fun hm => by
  have := isWordChar_of_mem (keepName_valid h) c hm
  rw [hc] at this
  exact absurd this (by simp)

theorem ne_nil_of_keepName {name : Str} (h : keepName name = true) : name ≠ [] := by
  rintro rfl
  exact absurd h (by decide)

end Wsmr
