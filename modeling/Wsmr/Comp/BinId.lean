import Wsmr.Comp.Resolve
import Wsmr.Lib.Regex
import Wsmr.Lib.Shell

/-!
# Names for shell functions (`src/comp.rs`, `libexec/prepare-env.sh`)

`sanitize_bin_id` is a loop over two indices in place of a regular expression, `(^[^a-zA-Z]|[^a-zA-Z0-9_])+`. It
makes what substitution makes (`sub_sanitizeLoop`): the anchored alternative takes the first character alone, and the
run that the inner loop goes through is the longest match.
-/

namespace Wsmr

open Text

/-! ## The loop -/

/-- The inner loop. -/
def skipNonWord (chars : Str) (i : Nat) : Nat :=
  if h : i < chars.length then
    if !isWordChar chars[i] then skipNonWord chars (i + 1) else i
  else i
  termination_by chars.length - i

theorem le_skipNonWord (chars : Str) (i : Nat) : i ≤ skipNonWord chars i := by
  fun_induction skipNonWord chars i with
  | case1 i _ _ ih => omega
  | case2 => exact Nat.le_refl _
  | case3 => exact Nat.le_refl _

/-- Where the loop goes on after a match at `i`; a first character that is no letter may be a word character. -/
def afterRun (chars : Str) (i : Nat) (c : Char) : Nat :=
  skipNonWord chars (if i == 0 && !isAsciiAlphabetic c then i + 1 else i)

/-- The character at `i` is passed in any case. -/
theorem afterRun_eq {chars : Str} {i : Nat} (h : i < chars.length)
    (hc : ((i == 0 && !isAsciiAlphabetic chars[i]) || !isWordChar chars[i]) = true) :
    afterRun chars i chars[i] = skipNonWord chars (i + 1) := by
  unfold afterRun
  split
  · rfl
  · rename_i hfirst
    have hword : (!isWordChar chars[i]) = true := (Bool.or_eq_true _ _ ▸ hc).resolve_left hfirst
    rw [skipNonWord, dif_pos h, if_pos hword]

theorem lt_afterRun {chars : Str} {i : Nat} (h : i < chars.length)
    (hc : ((i == 0 && !isAsciiAlphabetic chars[i]) || !isWordChar chars[i]) = true) :
    i < afterRun chars i chars[i] := by
  rw [afterRun_eq h hc]
  exact le_skipNonWord chars (i + 1)

/-- `sanitize_bin_id` before it lower-cases. -/
def sanitizeLoop (chars : Str) (i : Nat) (out : Str) : Str :=
  if h : i < chars.length then
    if (i == 0 && !isAsciiAlphabetic chars[i]) || !isWordChar chars[i] then
      sanitizeLoop chars (afterRun chars i chars[i]) (out ++ ['_'])
    else sanitizeLoop chars (i + 1) (out ++ [chars[i]])
  else out
  termination_by chars.length - i
  decreasing_by
    · have hlt := lt_afterRun h ‹_›
      omega
    · omega

theorem drop_skipNonWord (chars : Str) (i : Nat) :
    chars.drop (skipNonWord chars i) = (chars.drop i).dropWhile fun c => !isWordChar c := by
  fun_induction skipNonWord chars i with
  | case1 i h hc ih => rw [ih, List.drop_eq_getElem_cons h, List.dropWhile_cons, if_pos hc]
  | case2 i h hc => rw [List.drop_eq_getElem_cons h, List.dropWhile_cons, if_neg hc]
  | case3 i h => rw [List.drop_eq_nil_of_le (Nat.le_of_not_lt h), List.dropWhile_nil]

/-- The loop goes through the text as `sanitizeFrom` does. -/
theorem sanitizeLoop_eq (chars : Str) (i : Nat) (out : Str) :
    sanitizeLoop chars i out = out ++ sanitizeFrom (i == 0) (chars.drop i) := by
  fun_induction sanitizeLoop chars i out with
  | case1 i out h hc ih =>
    have hpos : (afterRun chars i chars[i] == 0) = false := by
      have hlt := lt_afterRun h hc
      simp only [beq_eq_false_iff_ne]
      omega
    rw [ih, hpos, afterRun_eq h hc, drop_skipNonWord, List.drop_eq_getElem_cons h, sanitizeFrom, if_pos hc,
      List.append_assoc]
    rfl
  | case2 i out h hc ih =>
    rw [ih, List.drop_eq_getElem_cons h, sanitizeFrom, if_neg hc, List.append_assoc]
    rfl
  | case3 i out h =>
    rw [List.drop_eq_nil_of_le (Nat.le_of_not_lt h), sanitizeFrom, List.append_nil]

theorem sanitizeBinId_eq_loop (name : Str) : sanitizeBinId name = (sanitizeLoop name 0 []).map Char.toLower := by
  rw [sanitizeLoop_eq]
  rfl

/-! ## The regular expression -/

/-- `(^[^a-zA-Z]|[^a-zA-Z0-9_])+` -/
def nonWordRuns : Regex Char :=
  .plus (.alt (.seq .start (.chr fun c => !isAsciiAlphabetic c)) (.chr fun c => !isWordChar c))

/-- What stands at position `i` belongs to a match. -/
def Hit (i : Nat) (c : Char) : Prop := (i = 0 ∧ (!isAsciiAlphabetic c) = true) ∨ (!isWordChar c) = true

theorem single_hit (s : Str) : Regex.Single s
    (.alt (.seq .start (.chr fun c => !isAsciiAlphabetic c)) (.chr fun c => !isWordChar c)) Hit :=
  Regex.single_start.alt Regex.single_chr

theorem hit_iff {i : Nat} {c : Char} : ((i == 0 && !isAsciiAlphabetic c) || !isWordChar c) = true ↔ Hit i c := by
  rw [Hit, Bool.or_eq_true, Bool.and_eq_true, beq_iff_eq]

section
variable {chars : Str} {i : Nat}

theorem nonWord_of_skipped {k : Nat} (hik : i ≤ k) (hk : k < skipNonWord chars i) :
    ∃ c, chars[k]? = some c ∧ (!isWordChar c) = true := by
  fun_induction skipNonWord chars i with
  | case1 i h hc ih =>
    rcases Nat.eq_or_lt_of_le hik with rfl | hik
    · exact ⟨chars[i], List.getElem?_eq_getElem h, hc⟩
    · exact ih hik hk
  | case2 => omega
  | case3 => omega

theorem word_of_skipNonWord {c : Char} (h : chars[skipNonWord chars i]? = some c) : isWordChar c = true := by
  fun_induction skipNonWord chars i with
  | case1 _ _ _ ih => exact ih h
  | case2 i hi hc =>
    rw [List.getElem?_eq_getElem hi] at h
    obtain rfl := Option.some.inj h
    simpa using hc
  | case3 i hi => exact absurd (List.getElem?_eq_some_iff.1 h).1 hi

/-- The run is a match. -/
theorem match_afterRun (h : i < chars.length) (hc : Hit i chars[i]) :
    Regex.Match chars nonWordRuns i (afterRun chars i chars[i]) := by
  refine (single_hit chars).match_plus.2 ⟨lt_afterRun h (hit_iff.2 hc), fun k hik hk => ?_⟩
  rcases Nat.eq_or_lt_of_le hik with rfl | hik
  · exact ⟨chars[i], List.getElem?_eq_getElem h, hc⟩
  · rw [afterRun_eq h (hit_iff.2 hc)] at hk
    obtain ⟨c, hget, hnon⟩ := nonWord_of_skipped hik hk
    exact ⟨c, hget, Or.inr hnon⟩

/-- No match is longer. -/
theorem afterRun_longest (h : i < chars.length) (hc : Hit i chars[i]) (k : Nat)
    (hm : Regex.Match chars nonWordRuns i k) : k ≤ afterRun chars i chars[i] := by
  have hlt := lt_afterRun h (hit_iff.2 hc)
  refine (single_hit chars).longest (Nat.le_of_lt hlt) (fun c hget => ?_) k hm
  rw [afterRun_eq h (hit_iff.2 hc)] at hget
  have hword : isWordChar c = true := word_of_skipNonWord hget
  rintro (⟨hzero, -⟩ | hnon)
  · omega
  · rw [hword] at hnon
    cases hnon

end

/-- **The loop substitutes**: it goes on with what the expression makes of the rest. -/
theorem sub_sanitizeLoop (chars : Str) (i : Nat) (out : Str) :
    ∃ t, sanitizeLoop chars i out = out ++ t ∧ nonWordRuns.Sub ['_'] chars i t := by
  fun_induction sanitizeLoop chars i out with
  | case1 i out h hc ih =>
    obtain ⟨t, heq, hsub⟩ := ih
    have hhit := hit_iff.1 hc
    exact ⟨'_' :: t, by rw [heq, List.append_assoc]; rfl,
      .replace h (lt_afterRun h hc) (match_afterRun h hhit) (afterRun_longest h hhit) hsub⟩
  | case2 i out h hc ih =>
    obtain ⟨t, heq, hsub⟩ := ih
    refine ⟨chars[i] :: t, by rw [heq, List.append_assoc]; rfl,
      .keep (List.getElem?_eq_getElem h) (fun j hm => ?_) hsub⟩
    obtain ⟨hij, hrun⟩ := (single_hit chars).match_plus.1 hm
    obtain ⟨c, hget, hhit⟩ := hrun i (Nat.le_refl i) hij
    rw [List.getElem?_eq_getElem h] at hget
    obtain rfl := Option.some.inj hget
    exact hc (hit_iff.2 hhit)
  | case3 i out h => exact ⟨[], (List.append_nil out).symm, .done (Nat.le_of_not_lt h)⟩

/-! ## What is made -/

/-- What `prepare-env.sh` puts in front of `__WM_BIN_ID__`. -/
def functionStems : List Str :=
  ["in_each_config_dir_".toList, "in_each_config_dir_reversed_".toList, "process_config_dirs_reversed_".toList,
    "quirks_".toList, "load_wm_env_".toList]

theorem toNat_of_isWordChar {c : Char} (h : isWordChar c = true) : c.toNat < 128 := by
  rw [isWordChar, Bool.or_eq_true, beq_iff_eq] at h
  rcases h with h | rfl
  · have hrange := toNat_of_alphanumeric h
    omega
  · decide

theorem toLower_ascii : ∀ n < 128, isWordChar (Char.ofNat n) = true →
    ('a' ≤ (Char.ofNat n).toLower ∧ (Char.ofNat n).toLower ≤ 'z' ∨
      '0' ≤ (Char.ofNat n).toLower ∧ (Char.ofNat n).toLower ≤ '9' ∨ (Char.ofNat n).toLower = '_') ∧
    (isAsciiAlphabetic (Char.ofNat n) = true → 'a' ≤ (Char.ofNat n).toLower ∧ (Char.ofNat n).toLower ≤ 'z') := by
  decide

theorem toLower_of_isWordChar {c : Char} (h : isWordChar c = true) :
    ('a' ≤ c.toLower ∧ c.toLower ≤ 'z' ∨ '0' ≤ c.toLower ∧ c.toLower ≤ '9' ∨ c.toLower = '_') ∧
      (isAsciiAlphabetic c = true → 'a' ≤ c.toLower ∧ c.toLower ≤ 'z') := by
  have hascii := toLower_ascii c.toNat (toNat_of_isWordChar h)
  rw [Char.ofNat_toNat] at hascii
  exact hascii h

theorem isWordChar_of_mem_sanitizeFrom {first : Bool} {s : Str} {c : Char} (h : c ∈ sanitizeFrom first s) :
    isWordChar c = true := by
  fun_induction sanitizeFrom first s with
  | case1 => cases h
  | case2 _ _ _ _ ih =>
    rcases List.mem_cons.1 h with rfl | h
    · decide
    · exact ih h
  | case3 _ d _ hd ih =>
    rcases List.mem_cons.1 h with rfl | h
    · rw [Bool.or_eq_true, not_or] at hd
      simpa using hd.2
    · exact ih h

theorem of_mem_sanitizeBinId {s : Str} {c : Char} (h : c ∈ sanitizeBinId s) :
    'a' ≤ c ∧ c ≤ 'z' ∨ '0' ≤ c ∧ c ≤ '9' ∨ c = '_' := by
  obtain ⟨d, hd, rfl⟩ := List.mem_map.1 h
  exact (toLower_of_isWordChar (isWordChar_of_mem_sanitizeFrom hd)).1

theorem head_sanitizeBinId {s : Str} (h : s ≠ []) :
    ∃ c rest, sanitizeBinId s = c :: rest ∧ ('a' ≤ c ∧ c ≤ 'z' ∨ c = '_') := by
  cases s with
  | nil => exact absurd rfl h
  | cons c s =>
    rw [sanitizeBinId, sanitizeFrom]
    split
    · exact ⟨_, _, rfl, Or.inr (by decide)⟩
    · rename_i hc
      simp only [Bool.true_and, Bool.or_eq_true, Bool.not_eq_true', not_or, Bool.not_eq_false] at hc
      exact ⟨_, _, rfl, Or.inl ((toLower_of_isWordChar hc.2).2 hc.1)⟩

/-- A stem with the id is a name. -/
theorem isName_function {stem : Str} (h : stem ∈ functionStems) (s : Str) :
    Shell.isName (stem ++ sanitizeBinId s) = true := by
  have hstems : ∀ stem ∈ functionStems, stem ≠ [] ∧ Shell.isName stem = true := by decide
  obtain ⟨hne, hname⟩ := hstems stem h
  obtain ⟨hhead, hall⟩ := Bool.and_eq_true_iff.1 hname
  have hid : ∀ c ∈ sanitizeBinId s, Shell.isNameChar c = true := fun c hc => by
    rcases of_mem_sanitizeBinId hc with hletter | hdigit | rfl
    · simp [Shell.isNameChar, Shell.isNameStart, hletter]
    · simp [Shell.isNameChar, hdigit]
    · decide
  rw [Shell.isName, List.head?_append_of_ne_nil _ hne, hhead, List.all_append, hall, List.all_eq_true.2 hid]
  rfl

theorem binId_of_resolve {host : Host} {input : ResolveInput} {comp : CompGlobals}
    (h : resolve host input = .ok comp) : comp.binId = sanitizeBinId comp.binName := by
  obtain ⟨m, rfl⟩ := compOf_of_resolve h
  rfl

/-- **`sanitize_bin_id` is the substitution it ports**: each match of the expression becomes an underscore, the rest
is kept, and all of it is lower-cased. So what it makes of any text is safe behind the stems of the functions. -/
theorem sanitizeBinId_eq_sub (s : Str) :
    (∃ out, (∀ t, nonWordRuns.Sub ['_'] s 0 t ↔ t = out) ∧ sanitizeBinId s = out.map Char.toLower) ∧
    (∀ c ∈ sanitizeBinId s, 'a' ≤ c ∧ c ≤ 'z' ∨ '0' ≤ c ∧ c ≤ '9' ∨ c = '_') ∧
    (s ≠ [] → ∃ c rest, sanitizeBinId s = c :: rest ∧ ('a' ≤ c ∧ c ≤ 'z' ∨ c = '_')) ∧
    (∀ stem ∈ functionStems, Shell.isName (stem ++ sanitizeBinId s) = true) ∧
    ∀ (host : Host) (input : ResolveInput) (comp : CompGlobals), resolve host input = .ok comp →
      comp.binId = sanitizeBinId comp.binName := by
  refine ⟨?_, fun c hc => of_mem_sanitizeBinId hc, head_sanitizeBinId, fun stem h => isName_function h s,
    fun _ _ _ h => binId_of_resolve h⟩
  obtain ⟨t, heq, hsub⟩ := sub_sanitizeLoop s 0 []
  rw [List.nil_append] at heq
  refine ⟨t, fun t' => ⟨fun h => h.unique hsub, fun h => h ▸ hsub⟩, ?_⟩
  rw [sanitizeBinId_eq_loop, heq]

end Wsmr
