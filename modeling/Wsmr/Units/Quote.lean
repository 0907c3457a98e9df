import Wsmr.Lib.Shell
import Wsmr.Units.Templates

/-!
# Quoted words (`shlex_quote` in `src/units/templates.rs`)

A word is left as it is when all of it is plain, and stands in single quotes otherwise.
-/

namespace Wsmr

open Text

/-- What `shlex_quote` leaves as it is. -/
def isPlain (c : Char) : Bool := isAsciiAlphanumeric c || "@%+=:,./-_".toList.contains c

/-- Nothing that a shell or a service manager reads in its own way is plain, but for `%`. -/
theorem plain_special :
    ∀ d ∈ ' ' :: '&' :: '\'' :: '"' :: "|;<>()$`\\*?[]#~{}!\n\t\r".toList, isPlain d = false :=
  forall_mem_of_all (by decide)

theorem plain_ne {c : Char} (h : isPlain c = true) :
    ∀ d ∈ ' ' :: '&' :: '\'' :: '"' :: "|;<>()$`\\*?[]#~{}!\n\t\r".toList, c ≠ d := by
  rintro d hd rfl
  rw [plain_special c hd] at h
  cases h

theorem shlexQuote_cases (w : Str) :
    shlexQuote w = Shell.quoted w ∨ w ≠ [] ∧ (∀ c ∈ w, isPlain c = true) ∧ shlexQuote w = w := by
  have hempty : "''".toList = Shell.quoted [] := by decide
  have hquote : "'".toList = ['\''] := by decide
  unfold shlexQuote
  split
  · rename_i hw
    rw [hw, hempty]
    exact Or.inl rfl
  · split
    · rename_i hne hplain
      exact Or.inr ⟨hne, List.all_eq_true.1 hplain, rfl⟩
    · refine Or.inl ?_
      rw [hquote]
      unfold Shell.quoted
      simp only [List.cons.injEq, and_true, List.cons_append, List.nil_append]

/-! ## Newlines are kept -/

theorem newline_mem_shlexQuote {s : Str} : '\n' ∈ shlexQuote s ↔ '\n' ∈ s := by
  have hempty : '\n' ∉ "''".toList := by decide
  have hquote : '\n' ∉ "'".toList := by decide
  have hquoted : '\n' ∉ "'\"'\"'".toList := by decide
  unfold shlexQuote
  generalize "''".toList = empty at hempty ⊢
  generalize "'\"'\"'".toList = quoted at hquoted ⊢
  generalize "'".toList = quote at hquote ⊢
  split
  · rename_i hs
    simp [hs, hempty]
  split
  · rfl
  · have hbody : ('\n' ∈ s.flatMap fun c => if [c] = quote then quoted else [c]) ↔ '\n' ∈ s := by
      rw [List.mem_flatMap]
      constructor
      · rintro ⟨c, hc, hmem⟩
        split at hmem
        · exact absurd hmem hquoted
        · exact List.mem_singleton.1 hmem ▸ hc
      · intro h
        refine ⟨'\n', h, ?_⟩
        have hne : ['\n'] ≠ quote := fun he => hquote (he ▸ List.mem_singleton_self _)
        rw [if_neg hne]
        exact List.mem_singleton_self _
    simp only [List.mem_append, hquote, false_or, or_false, hbody]

theorem mem_intercalate {sep : Str} {c : Char} (hsep : c ∉ sep) : ∀ {ls : List Str},
    c ∈ List.intercalate sep ls ↔ ∃ l ∈ ls, c ∈ l
  | [] => by simp
  | [l] => by simp
  | l :: m :: ls => by
    rw [List.intercalate_cons_cons, List.mem_append, List.mem_append, mem_intercalate hsep]
    simp [hsep]

theorem newline_mem_shlexJoin {parts : List Str} : '\n' ∈ shlexJoin parts ↔ ∃ w ∈ parts, '\n' ∈ w := by
  unfold shlexJoin
  rw [mem_intercalate (by decide)]
  simp [newline_mem_shlexQuote]

end Wsmr
