import Wsmr.Filter

/-!
# The resolved compositor (`src/comp.rs`)
-/

namespace Wsmr

open Text

structure CompGlobals where
  cmdline : List Str
  id : Str
  idUnitString : Str
  binName : Str
  binId : Str
  desktopNames : List Str
  name : Option Str
  description : Option Str
  cliDesktopNames : List Str
  cliDesktopNamesExclusive : Bool

/-- `^[A-Za-z0-9_:.-]+$` -/
def isWmId (s : Str) : Bool := !s.isEmpty && s.all fun c => isAsciiAlphanumeric c || "_:.-".toList.contains c

theorem toNat_of_alphanumeric {c : Char} (h : isAsciiAlphanumeric c = true) : 48 ≤ c.toNat ∧ c.toNat ≤ 122 := by
  have hle : ∀ a b : Char, a ≤ b ↔ a.toNat ≤ b.toNat := fun _ _ => Iff.rfl
  simp only [isAsciiAlphanumeric, isAsciiAlphabetic, Bool.or_eq_true, Bool.and_eq_true, decide_eq_true_eq, hle] at h
  have h0 : '0'.toNat = 48 := rfl
  have h9 : '9'.toNat = 57 := rfl
  have hA : 'A'.toNat = 65 := rfl
  have hZ : 'Z'.toNat = 90 := rfl
  have ha : 'a'.toNat = 97 := rfl
  have hz : 'z'.toNat = 122 := rfl
  omega

/-- The characters of an id. -/
theorem of_mem_wmId {id : Str} (h : isWmId id = true) {c : Char} (hc : c ∈ id) :
    isAsciiAlphanumeric c = true ∨ c ∈ ['_', ':', '.', '-'] := by
  have hall := List.all_eq_true.1 (Bool.and_eq_true_iff.1 h).2 c hc
  rw [Bool.or_eq_true] at hall
  exact hall.imp_right List.contains_iff_mem.1

theorem not_mem_wmId {id : Str} (h : isWmId id = true) {c : Char}
    (hc : (isAsciiAlphanumeric c || ['_', ':', '.', '-'].contains c) = false) : c ∉ id := fun hm => by
  rw [Bool.or_eq_false_iff] at hc
  rcases of_mem_wmId h hm with ha | ha
  · rw [hc.1] at ha
    cases ha
  · rw [List.contains_iff_mem.2 ha] at hc
    exact absurd hc.2 (by simp)

theorem not_whitespace_of_mem_wmId {id : Str} (h : isWmId id = true) : ∀ c ∈ id, isWhitespace c = false := by
  intro c hc
  have hrange : 45 ≤ c.toNat ∧ c.toNat ≤ 122 := by
    rcases of_mem_wmId h hc with ha | ha
    · have := toNat_of_alphanumeric ha
      omega
    · have hpunct : ∀ d ∈ ['_', ':', '.', '-'], 45 ≤ d.toNat ∧ d.toNat ≤ 122 := forall_mem_of_all (by decide)
      exact hpunct c ha
  simp only [isWhitespace, Bool.or_eq_false_iff, Bool.and_eq_false_iff, decide_eq_false_iff_not, List.contains_eq_mem,
    List.mem_cons, List.not_mem_nil, or_false]
  omega

end Wsmr
