import Wsmr.Lib.Code
import Wsmr.Units.Escape

/-!
# Unit strings as systemd reads them (`src/units/escape.rs`)

A unit string is a text of tokens, one for each byte (`unitCode`): escaping character by character is escaping byte by
byte. So systemd reads it as the bytes of what was escaped.
-/

namespace Wsmr

open Text

/-- systemd's unescaping: `-` stands for `/`, `\xHH` for a byte, everything else for itself. -/
def unescape : Str → List UInt8
  | [] => []
  | '\\' :: 'x' :: h :: l :: s =>
    match digitVal 16 h, digitVal 16 l with
    | some h, some l => UInt8.ofNat (h * 16 + l) :: unescape s
    | _, _ => utf8 ['\\'] ++ unescape ('x' :: h :: l :: s)
  | c :: s => utf8 [if c = '-' then '/' else c] ++ unescape s

theorem unescape_cons {c : Char} (h : c ≠ '\\') (s : Str) :
    unescape (c :: s) = utf8 [if c = '-' then '/' else c] ++ unescape s := by
  rw [unescape]
  intro h' l s' hc
  exact absurd hc h

theorem unescape_hexByte (b : UInt8) (s : Str) : unescape ('\\' :: 'x' :: hexByte b ++ s) = b :: unescape s := by
  have hlt : b.toNat < 256 := b.toNat_lt
  have hval : b.toNat / 16 * 16 + b.toNat % 16 = b.toNat := by omega
  simp only [hexByte, List.cons_append, List.nil_append]
  rw [unescape, digitVal_hexDigit _ (by omega), digitVal_hexDigit _ (by omega)]
  dsimp only
  rw [hval, UInt8.ofNat_toNat]

/-! ## Byte by byte -/

def escapeByte (b : UInt8) : Str :=
  if Char.ofNat b.toNat = '/' then ['-']
  else if isAllowed (Char.ofNat b.toNat) then [Char.ofNat b.toNat]
  else '\\' :: 'x' :: hexByte b

theorem ascii_of_isAllowed {c : Char} (h : isAllowed c = true) : c.toNat < 128 := by
  simp only [isAllowed, Bool.or_eq_true, decide_eq_true_eq] at h
  rcases h with ((rfl | rfl) | rfl) | h
  · decide
  · decide
  · decide
  · have := toNat_of_alphanumeric h
    omega

theorem unescape_escapeByte (b : UInt8) (s : Str) : unescape (escapeByte b ++ s) = b :: unescape s := by
  unfold escapeByte
  split
  · rename_i hslash
    have hb : b = 47 := by
      have h47 := toNat_charOfByte b
      rw [hslash] at h47
      exact UInt8.toNat_inj.1 h47.symm
    subst hb
    exact unescape_cons (by decide) s
  · split
    · rename_i hallowed
      have hdash : Char.ofNat b.toNat ≠ '-' := by
        intro he
        rw [he] at hallowed
        exact absurd hallowed (by decide)
      have hback : Char.ofNat b.toNat ≠ '\\' := by
        intro he
        rw [he] at hallowed
        exact absurd hallowed (by decide)
      rw [List.singleton_append, unescape_cons hback, if_neg hdash, utf8_charOfByte (ascii_of_isAllowed hallowed)]
      rfl
    · exact unescape_hexByte b s

/-- Unit strings. -/
def unitCode : Code UInt8 Char := ⟨escapeByte, unescape, rfl, unescape_escapeByte⟩

theorem escapeByte_of_le {b : UInt8} (h : 128 ≤ b.toNat) : escapeByte b = '\\' :: 'x' :: hexByte b := by
  have hb := toNat_charOfByte b
  have hslash : Char.ofNat b.toNat ≠ '/' := by
    intro he
    rw [he] at hb
    have h47 : '/'.toNat = 47 := rfl
    omega
  have hallowed : ¬ isAllowed (Char.ofNat b.toNat) = true := by
    intro ha
    have hlt := ascii_of_isAllowed ha
    omega
  rw [escapeByte, if_neg hslash, if_neg hallowed]

theorem char2cesc_of_forall {bs : List UInt8} (h : ∀ b ∈ bs, 128 ≤ b.toNat) :
    (bs.flatMap fun b => '\\' :: 'x' :: hexByte b) = unitCode.encode bs :=
  List.flatMap_congr fun b hb => (escapeByte_of_le (h b hb)).symm

theorem escapeChar_eq (c : Char) : escapeChar c = unitCode.encode (String.utf8EncodeChar c) := by
  have hchar : utf8 [c] = String.utf8EncodeChar c := List.flatMap_singleton _ _
  unfold escapeChar char2cesc
  rw [hchar]
  by_cases h : c.toNat < 128
  · -- One byte, and the tests are the same.
    have hc : Char.ofNat (UInt8.ofNat c.toNat).toNat = c := by
      rw [UInt8.toNat_ofNat', Nat.mod_eq_of_lt (by omega), Char.ofNat_toNat]
    rw [utf8EncodeChar_of_ascii h, Code.encode_cons, Code.encode_nil, List.append_nil, List.flatMap_singleton]
    show _ = escapeByte _
    rw [escapeByte, hc]
  · have hslash : c ≠ '/' := by
      rintro rfl
      exact h (by decide)
    have hallowed : ¬ isAllowed c = true := fun ha => h (ascii_of_isAllowed ha)
    rw [if_neg hslash, if_neg hallowed]
    exact char2cesc_of_forall (le_of_mem_utf8EncodeChar (by omega))

theorem flatMap_escapeChar : ∀ s : Str, s.flatMap escapeChar = unitCode.encode (utf8 s)
  | [] => rfl
  | c :: s => by
    rw [List.flatMap_cons, escapeChar_eq, flatMap_escapeChar s, utf8_cons, Code.encode_append]

/-- **Escaping** gives the tokens of the bytes. -/
theorem escape_eq (s : Str) : simpleSystemdEscape s false = unitCode.encode (utf8 s) := by
  unfold simpleSystemdEscape
  rw [Bool.false_and, if_neg Bool.false_ne_true, flatMap_escapeChar]

/-- **What systemd reads**: the bytes of what was escaped. -/
theorem unescape_escape (s : Str) (start : Bool) : unescape (simpleSystemdEscape s start) = utf8 s := by
  unfold simpleSystemdEscape
  split
  · -- A leading `.` has another token, that is read in the same way.
    rename_i hdot
    obtain ⟨t, rfl⟩ : ∃ t, s = '.' :: t := by
      cases s with
      | nil => simp at hdot
      | cons c t => exact ⟨t, by simpa using (Bool.and_eq_true_iff.1 hdot).2⟩
    have htoken : char2cesc ['.'] = '\\' :: 'x' :: hexByte 46 := by decide
    rw [htoken, unescape_hexByte, List.tail_cons, flatMap_escapeChar, utf8_cons]
    exact congrArg (List.cons 46) (unitCode.decode_encode (utf8 t))
  · rw [flatMap_escapeChar]
    exact unitCode.decode_encode (utf8 s)

/-- Different texts have different unit strings. -/
theorem escape_inj {s t : Str} {start start' : Bool} (h : simpleSystemdEscape s start = simpleSystemdEscape t start') :
    s = t := by
  have hbytes := congrArg unescape h
  rw [unescape_escape, unescape_escape] at hbytes
  exact utf8_injective hbytes

/-- At the start of a unit name there is no `.`. -/
theorem head_escape_ne_dot (s : Str) : (simpleSystemdEscape s true).head? ≠ some '.' := by
  unfold simpleSystemdEscape
  split
  · rw [List.head?_append_of_ne_nil _ (by decide)]
    decide
  · rename_i hdot
    cases s with
    | nil => nofun
    | cons c t =>
      have hc : c ≠ '.' := fun he => hdot (by simp [he])
      rw [List.flatMap_cons]
      unfold escapeChar
      split
      · exact fun h => absurd (Option.some.inj h) (by decide)
      · split
        · exact fun h => hc (Option.some.inj h)
        · obtain ⟨b, bs, hbytes⟩ := List.exists_cons_of_ne_nil (@String.utf8EncodeChar_ne_nil c)
          have hutf8 : utf8 [c] = b :: bs := (List.flatMap_singleton _ _).trans hbytes
          rw [char2cesc, hutf8]
          exact fun h => absurd (Option.some.inj h) (by decide)

end Wsmr
