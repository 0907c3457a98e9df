import Wsmr.App.Field
import Wsmr.Comp
import Wsmr.Lib.Code

/-!
# Paths as URLs (`src/app/field.rs`)

A URL has a token for each byte of the path (`urlCode`), so that decoding it gives the path again.
-/

namespace Wsmr

open Text

/-- Percent-decoding: `%XX` stands for a byte, everything else for itself. -/
def percentDecode : Str → List UInt8
  | [] => []
  | '%' :: h :: l :: s =>
    match digitVal 16 h, digitVal 16 l with
    | some h, some l => UInt8.ofNat (h * 16 + l) :: percentDecode s
    | _, _ => utf8 ['%'] ++ percentDecode (h :: l :: s)
  | c :: s => utf8 [c] ++ percentDecode s

/-- `ALPHA / DIGIT / "-" / "." / "_" / "~"` -/
def isUnreserved (c : Char) : Bool := isAsciiAlphanumeric c || ['_', '.', '~', '-'].contains c

/-- Unreserved characters, slashes and uppercase `%XX`. -/
inductive UrlText : Str → Prop
  | nil : UrlText []
  | char {c : Char} {s : Str} : isUnreserved c = true ∨ c = '/' → UrlText s → UrlText (c :: s)
  | triple {h l : Char} {s : Str} : h ∈ "0123456789ABCDEF".toList → l ∈ "0123456789ABCDEF".toList → UrlText s →
      UrlText ('%' :: h :: l :: s)

/-- A text with a URI scheme. -/
def Schemed (s : Str) : Prop := ∃ first scheme rest, s = first :: scheme ++ ':' :: rest ∧
  isAsciiAlphabetic first = true ∧ ∀ c ∈ scheme, isAsciiAlphanumeric c = true ∨ c ∈ ['+', '-', '.']

/-! ## Byte by byte -/

def percentByte (b : UInt8) : Str :=
  let c := Char.ofNat b.toNat
  if isAsciiAlphanumeric c || ['_', '.', '~', '-', '/'].contains c then [c]
  else ['%', upperHexDigit (b.toNat / 16), upperHexDigit (b.toNat % 16)]

theorem digitVal_upperHexDigit : ∀ d < 16, digitVal 16 (upperHexDigit d) = some d := by decide

theorem upperHexDigit_mem : ∀ d < 16, upperHexDigit d ∈ "0123456789ABCDEF".toList := by decide

theorem percentDecode_cons {c : Char} (h : c ≠ '%') (s : Str) :
    percentDecode (c :: s) = utf8 [c] ++ percentDecode s := by
  rw [percentDecode]
  intro h' l s' hc
  exact absurd hc h

theorem ascii_of_isUnreserved {c : Char} (h : isUnreserved c = true ∨ c = '/') : c.toNat < 128 := by
  simp only [isUnreserved, Bool.or_eq_true, List.contains_eq_mem, decide_eq_true_eq, List.mem_cons, List.not_mem_nil,
    or_false] at h
  rcases h with (h | rfl | rfl | rfl | rfl) | rfl
  · have := toNat_of_alphanumeric h
    omega
  all_goals decide

theorem percentByte_cases (b : UInt8) :
    (∃ c, (isUnreserved c = true ∨ c = '/') ∧ utf8 [c] = [b] ∧ percentByte b = [c]) ∨
    percentByte b = ['%', upperHexDigit (b.toNat / 16), upperHexDigit (b.toNat % 16)] := by
  unfold percentByte
  dsimp only
  split
  · rename_i hkept
    have hclass : isUnreserved (Char.ofNat b.toNat) = true ∨ Char.ofNat b.toNat = '/' := by
      simp only [isUnreserved, Bool.or_eq_true, List.contains_eq_mem, decide_eq_true_eq, List.mem_cons,
        List.not_mem_nil, or_false] at hkept ⊢
      tauto
    exact Or.inl ⟨_, hclass, utf8_charOfByte (ascii_of_isUnreserved hclass), rfl⟩
  · exact Or.inr rfl

theorem percentDecode_percentByte (b : UInt8) (s : Str) :
    percentDecode (percentByte b ++ s) = b :: percentDecode s := by
  have hlt : b.toNat < 256 := b.toNat_lt
  have hval : b.toNat / 16 * 16 + b.toNat % 16 = b.toNat := by omega
  rcases percentByte_cases b with ⟨c, hclass, hbytes, htoken⟩ | htoken
  · have hc : c ≠ '%' := by
      rintro rfl
      exact absurd hclass (by decide)
    rw [htoken, List.singleton_append, percentDecode_cons hc, hbytes]
    rfl
  · rw [htoken]
    simp only [List.cons_append, List.nil_append]
    rw [percentDecode, digitVal_upperHexDigit _ (by omega), digitVal_upperHexDigit _ (by omega)]
    dsimp only
    rw [hval, UInt8.ofNat_toNat]

/-- URLs of paths. -/
def urlCode : Code UInt8 Char := ⟨percentByte, percentDecode, rfl, percentDecode_percentByte⟩

theorem percentDecode_percentEncode (arg : Str) : percentDecode (percentEncode arg) = utf8 arg :=
  urlCode.decode_encode (utf8 arg)

theorem urlText_encode : ∀ bs : List UInt8, UrlText (urlCode.encode bs)
  | [] => .nil
  | b :: bs => by
    have hlt : b.toNat < 256 := b.toNat_lt
    rw [Code.encode_cons]
    show UrlText (percentByte b ++ _)
    rcases percentByte_cases b with ⟨c, hclass, -, htoken⟩ | htoken
    · rw [htoken]
      exact .char hclass (urlText_encode bs)
    · rw [htoken]
      exact .triple (upperHexDigit_mem _ (by omega)) (upperHexDigit_mem _ (by omega)) (urlText_encode bs)

/-! ## Schemes -/

theorem hasUriScheme_iff {s : Str} : hasUriScheme s = true ↔ Schemed s := by
  unfold Schemed
  constructor
  · intro h
    cases s with
    | nil => cases h
    | cons first tail =>
      rw [hasUriScheme, Bool.and_eq_true, decide_eq_true_eq] at h
      obtain ⟨hfirst, hcolon⟩ := h
      obtain ⟨rest, hrest⟩ := List.head?_eq_some_iff.1 hcolon
      have hsplit := tail.takeWhile_append_dropWhile
        (p := fun c => isAsciiAlphanumeric c || ['+', '-', '.'].contains c)
      rw [hrest] at hsplit
      refine ⟨first, _, rest, congrArg (List.cons first) hsplit.symm, hfirst, fun c hc => ?_⟩
      simpa using List.mem_takeWhile_imp hc
  · rintro ⟨first, scheme, rest, rfl, hfirst, hscheme⟩
    have hkept : ∀ c ∈ scheme, (isAsciiAlphanumeric c || ['+', '-', '.'].contains c) = true := fun c hc => by
      simpa using hscheme c hc
    rw [List.cons_append, hasUriScheme, hfirst, Bool.true_and, List.dropWhile_append_of_pos hkept,
      List.dropWhile_cons_of_neg (by decide)]
    rfl

/-- The scheme of what is made. -/
theorem schemed_file (t : Str) : Schemed ("file://".toList ++ t) :=
  ⟨'f', "ile".toList, "//".toList ++ t, by simp, by decide, forall_mem_of_all (by decide)⟩

theorem not_schemed_of_slash {p : Str} (h : p.head? = some '/') : ¬ Schemed p := by
  rintro ⟨first, scheme, rest, rfl, hfirst, -⟩
  obtain rfl := Option.some.inj h
  exact absurd hfirst (by decide)

theorem path2url_of_schemed {s : Str} (h : Schemed s) : path2url s = s := if_pos (hasUriScheme_iff.2 h)

theorem path2url_of_not_schemed {s : Str} (h : ¬ Schemed s) : path2url s = "file://".toList ++ percentEncode s :=
  if_neg fun hs => h (hasUriScheme_iff.1 hs)

theorem path2url_inj {p q : Str} (hp : ¬ Schemed p) (hq : ¬ Schemed q) (h : path2url p = path2url q) : p = q := by
  rw [path2url_of_not_schemed hp, path2url_of_not_schemed hq] at h
  exact utf8_injective (urlCode.encode_injective (List.append_cancel_left h))

theorem path2url_idem (x : Str) : path2url (path2url x) = path2url x := by
  by_cases h : Schemed x
  · rw [path2url_of_schemed h, path2url_of_schemed h]
  · rw [path2url_of_not_schemed h, path2url_of_schemed (schemed_file _)]

/-- **Paths as URLs**: the URL of a path that is no URL is well formed and decodes to the path, so that it is the URL
of no other path; and converting what is converted already changes nothing. -/
theorem path2url_sound :
    (∀ p : Str, ¬ Schemed p → ∃ t, path2url p = "file://".toList ++ t ∧ UrlText t ∧ percentDecode t = utf8 p) ∧
    (∀ p : Str, p.head? = some '/' → ¬ Schemed p) ∧
    (∀ p q : Str, ¬ Schemed p → ¬ Schemed q → path2url p = path2url q → p = q) ∧
    ∀ x : Str, path2url (path2url x) = path2url x :=
  ⟨fun p h => ⟨percentEncode p, path2url_of_not_schemed h, urlText_encode _, percentDecode_percentEncode p⟩,
    fun _ h => not_schemed_of_slash h, fun _ _ hp hq h => path2url_inj hp hq h, path2url_idem⟩

end Wsmr
