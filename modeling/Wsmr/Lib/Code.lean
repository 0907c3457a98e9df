import Wsmr.Lib.Text

/-!
# Codes

A code has a token for every symbol, and a decoder that reads the first token of whatever text follows. A text of
tokens is then read back, no two lists of symbols have one text, and a text that is cut between two tokens is read as
the symbols before the cut.

* `decode_encode` — the symbols are read back.
* `fit` — as many symbols as there is room for; `fit_isPrefix`, `length_encode_fit`, `fit_eq_self`.
* `not_inside` — a cut between two tokens is inside no token.
* `utf8_injective` — the bytes of a text tell what it is.
-/

structure Code (σ α : Type) where
  token : σ → List α
  decode : List α → List σ
  decode_nil : decode [] = []
  decode_append : ∀ x s, decode (token x ++ s) = x :: decode s

namespace Code

variable {σ α : Type} (code : Code σ α)

def encode (xs : List σ) : List α := xs.flatMap code.token

@[simp] theorem encode_nil : code.encode [] = [] := rfl

@[simp] theorem encode_cons (x : σ) (xs : List σ) : code.encode (x :: xs) = code.token x ++ code.encode xs :=
  List.flatMap_cons

theorem encode_append (xs ys : List σ) : code.encode (xs ++ ys) = code.encode xs ++ code.encode ys :=
  List.flatMap_append

theorem decode_encode_append (s : List α) : ∀ xs : List σ, code.decode (code.encode xs ++ s) = xs ++ code.decode s
  | [] => rfl
  | x :: xs => by
    rw [encode_cons, List.append_assoc, code.decode_append, decode_encode_append s xs]
    rfl

theorem decode_encode (xs : List σ) : code.decode (code.encode xs) = xs := by
  have h := code.decode_encode_append [] xs
  rwa [List.append_nil, code.decode_nil, List.append_nil] at h

theorem encode_injective : Function.Injective code.encode :=
  Function.LeftInverse.injective code.decode_encode

/-! ## Cutting -/

/-- As many symbols as there is room for. -/
def fit : Nat → List σ → List σ
  | _, [] => []
  | room, x :: xs =>
    if (code.token x).length ≤ room then x :: fit (room - (code.token x).length) xs else []

theorem fit_isPrefix : ∀ (room : Nat) (xs : List σ), code.fit room xs <+: xs
  | _, [] => List.nil_prefix
  | room, x :: xs => by
    rw [fit]
    split
    · exact List.cons_prefix_cons.2 ⟨rfl, fit_isPrefix _ xs⟩
    · exact List.nil_prefix

theorem length_encode_fit : ∀ (room : Nat) (xs : List σ), (code.encode (code.fit room xs)).length ≤ room
  | _, [] => Nat.zero_le _
  | room, x :: xs => by
    rw [fit]
    split
    · have ih := length_encode_fit (room - (code.token x).length) xs
      rw [encode_cons, List.length_append]
      omega
    · exact Nat.zero_le _

theorem fit_eq_self : ∀ {room : Nat} {xs : List σ}, (code.encode xs).length ≤ room → code.fit room xs = xs
  | _, [], _ => rfl
  | room, x :: xs, h => by
    rw [encode_cons, List.length_append] at h
    rw [fit, if_pos (by omega), fit_eq_self (by omega)]

variable {code} {xs ys : List σ}

/-- Symbols before the cut are the text before it. -/
theorem encode_isPrefix (h : xs <+: ys) : code.encode xs <+: code.encode ys := by
  obtain ⟨zs, rfl⟩ := h
  exact ⟨code.encode zs, (code.encode_append xs zs).symm⟩

/-- A cut between two tokens is not inside another one. -/
theorem not_inside {before after : List σ} {x : σ} (h : xs <+: before ++ x :: after) :
    (code.encode xs).length ≤ (code.encode before).length ∨
      (code.encode before).length + (code.token x).length ≤ (code.encode xs).length := by
  by_cases hlen : xs.length ≤ before.length
  · have hbefore : xs <+: before := List.prefix_of_prefix_length_le h (List.prefix_append _ _) hlen
    exact Or.inl (encode_isPrefix hbefore).length_le
  · have hthrough : before ++ [x] <+: before ++ x :: after := ⟨after, by simp⟩
    have hsub : before ++ [x] <+: xs := List.prefix_of_prefix_length_le hthrough h (by simp; omega)
    refine Or.inr ?_
    have hle := (@encode_isPrefix _ _ code _ _ hsub).length_le
    rwa [encode_append, encode_cons, encode_nil, List.append_nil, List.length_append] at hle

/-- A symbol that only starts tokens starts one wherever it is. -/
theorem exists_token_of_mem {b : α} (hstarts : ∀ x, b ∉ (code.token x).tail) : ∀ {xs : List σ} {p s : List α},
    code.encode xs = p ++ b :: s → ∃ before x after, xs = before ++ x :: after ∧ p = code.encode before ∧
      (code.token x).head? = some b
  | [], p, s, h => by
    rw [encode_nil] at h
    exact absurd h.symm (List.append_ne_nil_of_right_ne_nil p (List.cons_ne_nil b s))
  | x :: xs, p, s, h => by
    rw [encode_cons] at h
    have hlater : ∀ q, p = code.token x ++ q → code.encode xs = q ++ b :: s → ∃ before y after,
        x :: xs = before ++ y :: after ∧ p = code.encode before ∧ (code.token y).head? = some b := by
      intro q hp hxs
      obtain ⟨before, y, after, rfl, rfl, hy⟩ := exists_token_of_mem hstarts hxs
      exact ⟨x :: before, y, after, rfl, hp, hy⟩
    rcases List.append_eq_append_iff.1 h with ⟨q, hp, hxs⟩ | ⟨q, htoken, hxs⟩
    · exact hlater q hp hxs
    · cases q with
      | nil => exact hlater [] (by rw [htoken]; simp) hxs.symm
      | cons c q =>
        obtain ⟨rfl, -⟩ := List.cons.inj hxs
        cases p with
        | nil => exact ⟨[], x, xs, rfl, rfl, by rw [htoken]; rfl⟩
        | cons d p =>
          refine absurd ?_ (hstarts x)
          rw [htoken]
          exact List.mem_append_right p List.mem_cons_self

end Code

/-! ## UTF-8 -/

namespace Text

theorem utf8_cons (c : Char) (s : Str) : utf8 (c :: s) = String.utf8EncodeChar c ++ utf8 s := List.flatMap_cons

theorem utf8EncodeChar_of_ascii {c : Char} (h : c.toNat < 128) : String.utf8EncodeChar c = [UInt8.ofNat c.toNat] := by
  have hle : c.val.toNat ≤ 0x7f := by
    show c.toNat ≤ 127
    omega
  simp only [String.utf8EncodeChar, if_pos hle]
  rfl

theorem length_utf8_of_ascii : ∀ {s : Str}, (∀ c ∈ s, c.toNat < 128) → (utf8 s).length = s.length
  | [], _ => rfl
  | c :: s, h => by
    rw [List.forall_mem_cons] at h
    rw [utf8_cons, utf8EncodeChar_of_ascii h.1, List.length_append, length_utf8_of_ascii h.2, List.length_singleton,
      List.length_cons]
    omega

theorem toNat_charOfByte (b : UInt8) : (Char.ofNat b.toNat).toNat = b.toNat := by
  have hlt : b.toNat < 256 := b.toNat_lt
  have hvalid : b.toNat.isValidChar := Or.inl (by omega)
  unfold Char.ofNat
  rw [dif_pos hvalid]
  rfl

/-- An ASCII byte is a character of its own. -/
theorem utf8_charOfByte {b : UInt8} (h : (Char.ofNat b.toNat).toNat < 128) : utf8 [Char.ofNat b.toNat] = [b] := by
  rw [utf8_cons, utf8EncodeChar_of_ascii h, toNat_charOfByte, UInt8.ofNat_toNat]
  rfl

/-- A byte of a character that is not ASCII is not the byte of one that is. -/
theorem le_of_mem_utf8EncodeChar {c : Char} (h : 128 ≤ c.toNat) : ∀ b ∈ String.utf8EncodeChar c, 128 ≤ b.toNat := by
  have hgt : ¬ c.val.toNat ≤ 0x7f := by
    show ¬ c.toNat ≤ 127
    omega
  intro b hb
  simp only [String.utf8EncodeChar, if_neg hgt] at hb
  split at hb
  · simp only [List.mem_cons, List.not_mem_nil, or_false] at hb
    rcases hb with rfl | rfl <;> simp only [UInt8.toNat_ofNat'] <;> omega
  · split at hb
    · simp only [List.mem_cons, List.not_mem_nil, or_false] at hb
      rcases hb with rfl | rfl | rfl <;> simp only [UInt8.toNat_ofNat'] <;> omega
    · simp only [List.mem_cons, List.not_mem_nil, or_false] at hb
      rcases hb with rfl | rfl | rfl | rfl <;> simp only [UInt8.toNat_ofNat'] <;> omega

/-- The first character is told by the bytes, whatever comes after it. -/
theorem utf8EncodeChar_append_inj {c d : Char} {s t : List UInt8}
    (h : String.utf8EncodeChar c ++ s = String.utf8EncodeChar d ++ t) : c = d := by
  have hc := @ByteArray.utf8DecodeChar?_utf8EncodeChar_append s.toByteArray c
  have hd := @ByteArray.utf8DecodeChar?_utf8EncodeChar_append t.toByteArray d
  rw [← List.toByteArray_append] at hc hd
  rw [h, hd] at hc
  exact (Option.some.inj hc).symm

theorem utf8_injective : Function.Injective utf8
  | [], [], _ => rfl
  | [], d :: t, h => by
    rw [utf8_cons] at h
    exact absurd (List.append_eq_nil_iff.1 h.symm).1 String.utf8EncodeChar_ne_nil
  | c :: s, [], h => by
    rw [utf8_cons] at h
    exact absurd (List.append_eq_nil_iff.1 h).1 String.utf8EncodeChar_ne_nil
  | c :: s, d :: t, h => by
    rw [utf8_cons, utf8_cons] at h
    obtain rfl := utf8EncodeChar_append_inj h
    rw [utf8_injective (List.append_cancel_left h)]

/-- The text of these bytes, if they are one. -/
def decodeUtf8 (bytes : List UInt8) : Option Str := bytes.toByteArray.utf8Decode?.map Array.toList

theorem decodeUtf8_utf8 (s : Str) : decodeUtf8 (utf8 s) = some s := by
  have hbytes : (utf8 s).toByteArray = s.utf8Encode := rfl
  unfold decodeUtf8
  rw [hbytes, List.utf8Decode?_utf8Encode]
  simp

end Text
