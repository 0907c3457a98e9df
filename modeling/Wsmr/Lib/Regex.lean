import Mathlib.Data.List.Basic

/-!
# Regular expressions and substitution

A match goes from one position of a text to another (`Match`), so that `^` has a meaning inside of an expression.
Substitution goes through the text from the left: where a match begins, the longest one is replaced, and everything
else is kept (`Sub`). There is one result at most (`Sub.unique`).
-/

inductive Regex (α : Type)
  /-- `^` -/
  | start
  /-- One character of a class. -/
  | chr (p : α → Bool)
  | seq (r t : Regex α)
  | alt (r t : Regex α)
  | plus (r : Regex α)

namespace Regex

variable {α : Type} {s rep : List α} {r t : Regex α} {i j k : Nat}

/-- The expression matches what is between two positions of `s`. -/
inductive Match (s : List α) : Regex α → Nat → Nat → Prop
  | start : Match s start 0 0
  | chr {p : α → Bool} {i : Nat} {c : α} : s[i]? = some c → p c = true → Match s (chr p) i (i + 1)
  | seq {r t : Regex α} {i j k : Nat} : Match s r i j → Match s t j k → Match s (seq r t) i k
  | left {r t : Regex α} {i j : Nat} : Match s r i j → Match s (alt r t) i j
  | right {r t : Regex α} {i j : Nat} : Match s t i j → Match s (alt r t) i j
  | one {r : Regex α} {i j : Nat} : Match s r i j → Match s (plus r) i j
  | more {r : Regex α} {i j k : Nat} : Match s r i j → Match s (plus r) j k → Match s (plus r) i k

/-- From position `i` on, `out` is what becomes of `s`; for an expression that does not match the empty text. -/
inductive Sub (r : Regex α) (rep s : List α) : Nat → List α → Prop
  | done {i : Nat} : s.length ≤ i → Sub r rep s i []
  | keep {i : Nat} {c : α} {out : List α} : s[i]? = some c → (∀ j, ¬ Match s r i j) → Sub r rep s (i + 1) out →
      Sub r rep s i (c :: out)
  | replace {i j : Nat} {out : List α} : i < s.length → i < j → Match s r i j → (∀ k, Match s r i k → k ≤ j) →
      Sub r rep s j out → Sub r rep s i (rep ++ out)

/-! ## Matches -/

theorem match_start : Match s start i j ↔ i = 0 ∧ j = 0 := by
  constructor
  · intro h
    cases h with
    | start => exact ⟨rfl, rfl⟩
  · rintro ⟨rfl, rfl⟩
    exact .start

theorem match_chr {p : α → Bool} : Match s (chr p) i j ↔ j = i + 1 ∧ ∃ c, s[i]? = some c ∧ p c = true := by
  constructor
  · intro h
    cases h with
    | chr hc hp => exact ⟨rfl, _, hc, hp⟩
  · rintro ⟨rfl, c, hc, hp⟩
    exact .chr hc hp

theorem match_seq : Match s (seq r t) i k ↔ ∃ j, Match s r i j ∧ Match s t j k := by
  constructor
  · intro h
    cases h with
    | seq hr ht => exact ⟨_, hr, ht⟩
  · rintro ⟨j, hr, ht⟩
    exact .seq hr ht

theorem match_alt : Match s (alt r t) i j ↔ Match s r i j ∨ Match s t i j := by
  constructor
  · intro h
    cases h with
    | left h => exact Or.inl h
    | right h => exact Or.inr h
  · rintro (h | h)
    · exact .left h
    · exact .right h

/-! ## Runs -/

/-- The expression matches single characters, each where it may. -/
def Single (s : List α) (r : Regex α) (q : Nat → α → Prop) : Prop :=
  ∀ i j, Match s r i j ↔ j = i + 1 ∧ ∃ c, s[i]? = some c ∧ q i c

section
variable {q q' : Nat → α → Prop}

theorem single_chr {p : α → Bool} : Single s (chr p) fun _ c => p c = true := fun _ _ => match_chr

/-- An anchored character is the first one. -/
theorem single_start {p : α → Bool} : Single s (seq start (chr p)) fun i c => i = 0 ∧ p c = true := by
  intro i j
  rw [match_seq]
  constructor
  · rintro ⟨k, hstart, hchr⟩
    obtain ⟨rfl, rfl⟩ := match_start.1 hstart
    obtain ⟨rfl, c, hc, hp⟩ := match_chr.1 hchr
    exact ⟨rfl, c, hc, rfl, hp⟩
  · rintro ⟨rfl, c, hc, rfl, hp⟩
    exact ⟨0, .start, .chr hc hp⟩

theorem Single.alt (hr : Single s r q) (ht : Single s t q') : Single s (alt r t) fun i c => q i c ∨ q' i c := by
  intro i j
  rw [match_alt, hr i j, ht i j, ← and_or_left, ← exists_or]
  simp only [and_or_left]

theorem Single.match_run (h : Single s r q) : ∀ {n i : Nat}, (∀ k, i ≤ k → k ≤ i + n → ∃ c, s[k]? = some c ∧ q k c) →
    Match s (plus r) i (i + n + 1)
  | 0, i, hrun => .one ((h i (i + 1)).2 ⟨rfl, hrun i (Nat.le_refl i) (Nat.le_refl i)⟩)
  | n + 1, i, hrun => by
    have hfirst : Match s r i (i + 1) := (h i (i + 1)).2 ⟨rfl, hrun i (Nat.le_refl i) (by omega)⟩
    have hrest : Match s (plus r) (i + 1) (i + 1 + n + 1) := h.match_run fun k hik hk => hrun k (by omega) (by omega)
    have hend : i + 1 + n + 1 = i + (n + 1) + 1 := by omega
    exact .more hfirst (hend ▸ hrest)

/-- **A run**: a repetition matches where every character does. -/
theorem Single.match_plus (h : Single s r q) :
    Match s (plus r) i j ↔ i < j ∧ ∀ k, i ≤ k → k < j → ∃ c, s[k]? = some c ∧ q k c := by
  constructor
  · intro hm
    generalize hr : plus r = r' at hm
    induction hm with
    | one hm =>
      obtain rfl := Regex.plus.inj hr
      obtain ⟨rfl, hc⟩ := (h _ _).1 hm
      refine ⟨Nat.lt_succ_self _, fun k hik hk => ?_⟩
      obtain rfl : _ = k := Nat.le_antisymm hik (Nat.lt_succ_iff.1 hk)
      exact hc
    | more hm _ _ ih =>
      obtain rfl := Regex.plus.inj hr
      obtain ⟨rfl, hc⟩ := (h _ _).1 hm
      obtain ⟨hlt, hrest⟩ := ih rfl
      refine ⟨by omega, fun k hik hk => ?_⟩
      rcases Nat.eq_or_lt_of_le hik with rfl | hik
      · exact hc
      · exact hrest k hik hk
    | _ => cases hr
  · rintro ⟨hij, hrun⟩
    obtain ⟨n, rfl⟩ : ∃ n, j = i + n + 1 := ⟨j - i - 1, by omega⟩
    exact h.match_run fun k hik hk => hrun k hik (by omega)

/-- A run is the longest one when the character behind it does not belong to it. -/
theorem Single.longest (h : Single s r q) (hij : i ≤ j) (hstop : ∀ c, s[j]? = some c → ¬ q j c) (k : Nat)
    (hm : Match s (plus r) i k) : k ≤ j := by
  by_contra hk
  obtain ⟨c, hc, hq⟩ := (h.match_plus.1 hm).2 j hij (by omega)
  exact hstop c hc hq

end

/-! ## Substitution -/

/-- **One result** at most. -/
theorem Sub.unique {out out' : List α} (h : Sub r rep s i out) (h' : Sub r rep s i out') : out = out' := by
  induction h generalizing out' with
  | done hlen =>
    cases h' with
    | done _ => rfl
    | keep hc _ _ => exact absurd (List.getElem?_eq_some_iff.1 hc).1 (by omega)
    | replace hlt _ _ _ _ => omega
  | keep hc hno _ ih =>
    cases h' with
    | done hlen => exact absurd (List.getElem?_eq_some_iff.1 hc).1 (by omega)
    | keep hc' _ hrest => rw [Option.some.inj (hc.symm.trans hc'), ih hrest]
    | replace _ _ hm _ _ => exact absurd hm (hno _)
  | replace hlt _ hm hlongest _ ih =>
    cases h' with
    | done hlen => omega
    | keep _ hno _ => exact absurd hm (hno _)
    | replace _ _ hm' hlongest' hrest =>
      obtain rfl := Nat.le_antisymm (hlongest' _ hm) (hlongest _ hm')
      rw [ih hrest]

end Regex
