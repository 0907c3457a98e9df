import Wsmr.Units.Unescape

/-!
# Names of launched units (`src/app/naming.rs`)

A name has two texts from outside, each escaped and cut so that the name fits. What is left of a text is the tokens of
its first bytes, as many as there is room for (`truncateEscaped_escape`), so that a cut is between two tokens.
-/

namespace Wsmr

open Text

/-- The loop of `truncate_escaped`; `room` is what is left of the maximum. An `\xHH` is one piece. -/
def truncateFrom : Nat → Str → Str
  | _, [] => []
  | room, c :: s =>
    if c = '\\' && s.head? = some 'x' then
      match s with
      | x :: a :: b :: s => if 4 ≤ room then c :: x :: a :: b :: truncateFrom (room - 4) s else []
      | _ => []
    else if 1 ≤ room then c :: truncateFrom (room - 1) s
    else []

def truncateEscaped (s : Str) (max : Nat) : Str := if s.length ≤ max then s else truncateFrom max s

def autoUnitName (unitType desktop appName hex : Str) : Str :=
  let fixed := "app---DEADBEEF.".toList.length + unitType.length
  let escapedDesktop := simpleSystemdEscape desktop false
  let desktopSub :=
    if fixed + escapedDesktop.length > 127 then truncateEscaped escapedDesktop (127 - fixed) else escapedDesktop
  let escapedName := simpleSystemdEscape appName false
  let used := fixed + desktopSub.length
  let cmdSub := if used + escapedName.length > 255 then truncateEscaped escapedName (255 - used) else escapedName
  if unitType = "scope".toList then
    "app-".toList ++ desktopSub ++ "-".toList ++ cmdSub ++ "-".toList ++ hex ++ ".scope".toList
  else "app-".toList ++ desktopSub ++ "-".toList ++ cmdSub ++ "@".toList ++ hex ++ ".service".toList

/-! ## Where a unit string is cut -/

theorem escapeByte_cases (b : UInt8) :
    (∃ c, c ≠ '\\' ∧ escapeByte b = [c]) ∨ escapeByte b = '\\' :: 'x' :: hexByte b := by
  unfold escapeByte
  split
  · exact Or.inl ⟨'-', by decide, rfl⟩
  · split
    · rename_i hallowed
      refine Or.inl ⟨_, fun he => ?_, rfl⟩
      rw [he] at hallowed
      exact absurd hallowed (by decide)
    · exact Or.inr rfl

theorem truncateFrom_char {c : Char} (h : c ≠ '\\') (room : Nat) (s : Str) :
    truncateFrom room (c :: s) = if 1 ≤ room then c :: truncateFrom (room - 1) s else [] := by
  conv_lhs => unfold truncateFrom
  exact if_neg (by simp [h])

theorem truncateFrom_hexByte (b : UInt8) (room : Nat) (s : Str) :
    truncateFrom room ('\\' :: 'x' :: hexByte b ++ s) =
      if 4 ≤ room then '\\' :: 'x' :: hexByte b ++ truncateFrom (room - 4) s else [] := by
  show truncateFrom room ('\\' :: 'x' :: hexDigit _ :: hexDigit _ :: s) = _
  rw [truncateFrom, if_pos (by simp)]
  rfl

theorem truncateFrom_encode : ∀ (room : Nat) (bs : List UInt8),
    truncateFrom room (unitCode.encode bs) = unitCode.encode (unitCode.fit room bs)
  | _, [] => by rw [Code.encode_nil, truncateFrom, Code.fit, Code.encode_nil]
  | room, b :: bs => by
    have ih := truncateFrom_encode (room - (unitCode.token b).length) bs
    rw [Code.encode_cons, Code.fit]
    rcases escapeByte_cases b with ⟨c, hc, htoken⟩ | htoken
    · have htoken : unitCode.token b = [c] := htoken
      rw [htoken, List.length_singleton] at ih ⊢
      rw [List.singleton_append, truncateFrom_char hc]
      split
      · rw [ih, Code.encode_cons, htoken, List.singleton_append]
      · rfl
    · have htoken : unitCode.token b = '\\' :: 'x' :: hexByte b := htoken
      have hlen : ('\\' :: 'x' :: hexByte b).length = 4 := rfl
      rw [htoken, hlen] at ih ⊢
      rw [truncateFrom_hexByte]
      split
      · rw [ih, Code.encode_cons, htoken]
      · rfl

/-- **Truncating** keeps the tokens of the first bytes, as many as there is room for. -/
theorem truncateEscaped_escape (s : Str) (max : Nat) :
    truncateEscaped (simpleSystemdEscape s false) max = unitCode.encode (unitCode.fit max (utf8 s)) := by
  rw [escape_eq]
  unfold truncateEscaped
  split
  · rename_i hfits
    rw [Code.fit_eq_self unitCode hfits]
  · exact truncateFrom_encode max (utf8 s)

/-- What may be left of the unit string of a text: no `\xHH` is cut in two. -/
structure IsCut (input cut : Str) : Prop where
  isPrefix_escape : cut <+: simpleSystemdEscape input false
  not_inside : ∀ p a b, p ++ ['\\', 'x', a, b] <+: simpleSystemdEscape input false →
    cut.length ≤ p.length ∨ p.length + 4 ≤ cut.length
  unescape_isPrefix : unescape cut <+: utf8 input

theorem backslash_not_mem_tail (b : UInt8) : '\\' ∉ (unitCode.token b).tail := by
  have hlt : b.toNat < 256 := b.toNat_lt
  have hdigit : ∀ d < 16, hexDigit d ≠ '\\' := by decide
  show '\\' ∉ (escapeByte b).tail
  rcases escapeByte_cases b with ⟨c, -, htoken⟩ | htoken
  · rw [htoken]
    exact List.not_mem_nil
  · rw [htoken]
    simp only [hexByte, List.tail_cons, List.mem_cons, List.not_mem_nil, or_false, not_or]
    exact ⟨by decide, (hdigit _ (by omega)).symm, (hdigit _ (by omega)).symm⟩

theorem length_token_of_head {b : UInt8} (h : (unitCode.token b).head? = some '\\') :
    (unitCode.token b).length = 4 := by
  show (escapeByte b).length = 4
  rcases escapeByte_cases b with ⟨c, hc, htoken⟩ | htoken
  · change (escapeByte b).head? = some '\\' at h
    rw [htoken] at h
    exact absurd (Option.some.inj h) hc
  · rw [htoken]
    rfl

theorem isCut_fit (input : Str) (max : Nat) : IsCut input (unitCode.encode (unitCode.fit max (utf8 input))) where
  isPrefix_escape := by
    rw [escape_eq]
    exact Code.encode_isPrefix (unitCode.fit_isPrefix max _)
  not_inside := by
    rintro p a b ⟨rest, hsplit⟩
    rw [escape_eq] at hsplit
    obtain ⟨before, x, after, hbytes, rfl, hx⟩ :=
      Code.exists_token_of_mem backslash_not_mem_tail (hsplit.symm.trans (List.append_assoc ..))
    have hcut := unitCode.fit_isPrefix max (utf8 input)
    rw [hbytes] at hcut
    rw [← length_token_of_head hx, hbytes]
    exact Code.not_inside hcut
  unescape_isPrefix := by
    have hread : unescape (unitCode.encode (unitCode.fit max (utf8 input))) = unitCode.fit max (utf8 input) :=
      unitCode.decode_encode _
    rw [hread]
    exact unitCode.fit_isPrefix max _

/-! ## The whole name -/

/-- The name of an application whose texts are escaped and cut already. -/
def unitNameOf (unitType desktopSub cmdSub hex : Str) : Str :=
  if unitType = "scope".toList then
    "app-".toList ++ desktopSub ++ "-".toList ++ cmdSub ++ "-".toList ++ hex ++ ".scope".toList
  else "app-".toList ++ desktopSub ++ "-".toList ++ cmdSub ++ "@".toList ++ hex ++ ".service".toList

theorem cut_eq (input : Str) (used budget : Nat) :
    (if used + (simpleSystemdEscape input false).length > budget then
      truncateEscaped (simpleSystemdEscape input false) (budget - used) else simpleSystemdEscape input false) =
      unitCode.encode (unitCode.fit (budget - used) (utf8 input)) := by
  split
  · exact truncateEscaped_escape input _
  · rw [escape_eq] at *
    rw [Code.fit_eq_self unitCode (by omega)]

theorem autoUnitName_eq (unitType desktop appName hex : Str) :
    let used := "app---DEADBEEF.".toList.length + unitType.length
    let desktopSub := unitCode.encode (unitCode.fit (127 - used) (utf8 desktop))
    autoUnitName unitType desktop appName hex =
      unitNameOf unitType desktopSub
        (unitCode.encode (unitCode.fit (255 - (used + desktopSub.length)) (utf8 appName))) hex := by
  unfold autoUnitName
  simp only [cut_eq]
  rfl

theorem isEscaped_of_digitVal {x : Char} (h : (digitVal 16 x).isSome = true) : isEscaped x = true := by
  obtain ⟨d, hd⟩ := Option.isSome_iff_exists.1 h
  have hrange : isAsciiAlphanumeric x = true := by
    simp only [isAsciiAlphanumeric, isAsciiAlphabetic, Bool.or_eq_true, Bool.and_eq_true, decide_eq_true_eq]
    rcases hexDigit_of_digitVal hd with hdigit | hlower | hupper
    · exact Or.inr hdigit
    · exact Or.inl (Or.inr ⟨hlower.1, Char.le_trans hlower.2 (by decide)⟩)
    · exact Or.inl (Or.inl ⟨hupper.1, Char.le_trans hupper.2 (by decide)⟩)
  simp only [isEscaped, isAllowed, hrange, Bool.or_true, Bool.true_or]

theorem ascii_of_isEscaped {x : Char} (h : isEscaped x = true) : x.toNat < 128 := by
  simp only [isEscaped, Bool.or_eq_true, decide_eq_true_eq] at h
  rcases h with (h | rfl) | rfl
  · exact ascii_of_isAllowed h
  · decide
  · decide

section
variable {unitType d c hex : Str}

theorem length_unitNameOf (hunit : unitType = "scope".toList ∨ unitType = "service".toList) (hlen : hex.length = 8) :
    (unitNameOf unitType d c hex).length = "app---DEADBEEF.".toList.length + unitType.length + d.length + c.length := by
  rcases hunit with rfl | rfl
  · rw [unitNameOf, if_pos rfl]
    simp only [List.length_append, hlen]
    simp
    omega
  · rw [unitNameOf, if_neg (by decide)]
    simp only [List.length_append, hlen]
    simp
    omega

variable (hd : ∀ x ∈ d, isEscaped x = true) (hc : ∀ x ∈ c, isEscaped x = true) (hhex : ∀ x ∈ hex, isEscaped x = true)

include hd hc hhex in
theorem mem_unitNameOf {x : Char} (h : x ∈ unitNameOf unitType d c hex) : isEscaped x = true ∨ x = '@' := by
  have happ : ∀ y ∈ "app-".toList, isEscaped y = true := forall_mem_of_all (by decide)
  have hdash : ∀ y ∈ "-".toList, isEscaped y = true := forall_mem_of_all (by decide)
  have hscope : ∀ y ∈ ".scope".toList, isEscaped y = true := forall_mem_of_all (by decide)
  have hservice : ∀ y ∈ ".service".toList, isEscaped y = true := forall_mem_of_all (by decide)
  unfold unitNameOf at h
  split at h
  · simp only [List.mem_append] at h
    left
    rcases h with (((((h | h) | h) | h) | h) | h) | h
    · exact happ x h
    · exact hd x h
    · exact hdash x h
    · exact hc x h
    · exact hdash x h
    · exact hhex x h
    · exact hscope x h
  · simp only [List.mem_append] at h
    rcases h with (((((h | h) | h) | h) | h) | h) | h
    · exact Or.inl (happ x h)
    · exact Or.inl (hd x h)
    · exact Or.inl (hdash x h)
    · exact Or.inl (hc x h)
    · exact Or.inr (List.mem_singleton.1 h)
    · exact Or.inl (hhex x h)
    · exact Or.inl (hservice x h)

include hd hc hhex in
theorem count_unitNameOf :
    (unitNameOf unitType d c hex).count '@' = if unitType = "scope".toList then 0 else 1 := by
  have hnone : ∀ {s : Str}, (∀ x ∈ s, isEscaped x = true) → s.count '@' = 0 := fun h =>
    List.count_eq_zero.2 fun hmem => absurd (h _ hmem) (by decide)
  unfold unitNameOf
  split
  · simp only [List.count_append, hnone hd, hnone hc, hnone hhex]
    decide
  · simp only [List.count_append, hnone hd, hnone hc, hnone hhex]
    decide

include hd hc hhex in
/-- Every character is one byte. -/
theorem length_utf8_unitNameOf (hunit : unitType = "scope".toList ∨ unitType = "service".toList)
    (hlen : hex.length = 8) : (utf8 (unitNameOf unitType d c hex)).length =
      "app---DEADBEEF.".toList.length + unitType.length + d.length + c.length := by
  rw [length_utf8_of_ascii, length_unitNameOf hunit hlen]
  intro x hx
  rcases mem_unitNameOf hd hc hhex hx with h | rfl
  · exact ascii_of_isEscaped h
  · decide

end

theorem isEscaped_of_mem_cut {input cut : Str} (h : IsCut input cut) : ∀ x ∈ cut, isEscaped x = true :=
  fun _ hx => isEscaped_of_mem (h.isPrefix_escape.subset hx)

/-- A text that there is room for is not cut. -/
theorem encode_fit_eq {input : Str} {room : Nat} (h : (simpleSystemdEscape input false).length ≤ room) :
    unitCode.encode (unitCode.fit room (utf8 input)) = simpleSystemdEscape input false := by
  rw [escape_eq] at h ⊢
  rw [Code.fit_eq_self unitCode h]

/-- **Automatic unit names** fit and are well formed, whatever the desktop and the application are called. -/
theorem autoUnitName_wellFormed (unitType desktop appName hex : Str)
    (hunit : unitType = "scope".toList ∨ unitType = "service".toList) (hlen : hex.length = 8)
    (hhex : ∀ x ∈ hex, (digitVal 16 x).isSome = true) :
    let name := autoUnitName unitType desktop appName hex
    (utf8 name).length ≤ 255 ∧
    (∀ x ∈ name, isAsciiAlphanumeric x = true ∨ x ∈ [':', '_', '.', '-', '\\'] ∨ x = '@') ∧
    (name.count '@' = if unitType = "scope".toList then 0 else 1) ∧
    ∃ d c, name = unitNameOf unitType d c hex ∧ IsCut desktop d ∧ IsCut appName c ∧
      ((utf8 (unitNameOf unitType (simpleSystemdEscape desktop false) [] hex)).length ≤ 127 →
        d = simpleSystemdEscape desktop false) ∧
      ((utf8 (unitNameOf unitType d (simpleSystemdEscape appName false) hex)).length ≤ 255 →
        c = simpleSystemdEscape appName false) := by
  have hhex : ∀ x ∈ hex, isEscaped x = true := fun x hx => isEscaped_of_digitVal (hhex x hx)
  have hname := autoUnitName_eq unitType desktop appName hex
  have hbytes := fun d c hd hc => @length_utf8_unitNameOf unitType d c hex hd hc hhex hunit hlen
  have hused : "app---DEADBEEF.".toList.length + unitType.length ≤ 127 := by
    rcases hunit with rfl | rfl <;> decide
  dsimp only at hname ⊢
  generalize "app---DEADBEEF.".toList.length + unitType.length = used at hname hbytes hused
  obtain ⟨d, hd⟩ : ∃ d, d = unitCode.encode (unitCode.fit (127 - used) (utf8 desktop)) := ⟨_, rfl⟩
  obtain ⟨c, hc⟩ : ∃ c, c = unitCode.encode (unitCode.fit (255 - (used + d.length)) (utf8 appName)) := ⟨_, rfl⟩
  rw [← hd, ← hc] at hname
  have hdcut : IsCut desktop d := hd ▸ isCut_fit desktop _
  have hccut : IsCut appName c := hc ▸ isCut_fit appName _
  have hdlen : d.length ≤ 127 - used := hd ▸ unitCode.length_encode_fit _ _
  have hclen : c.length ≤ 255 - (used + d.length) := hc ▸ unitCode.length_encode_fit _ _
  have hdesc := isEscaped_of_mem_cut hdcut
  have hcesc := isEscaped_of_mem_cut hccut
  rw [hname]
  refine ⟨?_, fun x hx => ?_, count_unitNameOf hdesc hcesc hhex, d, c, rfl, hdcut, hccut, fun h => ?_, fun h => ?_⟩
  · rw [hbytes d c hdesc hcesc]
    omega
  · rcases mem_unitNameOf hdesc hcesc hhex hx with h | h
    · exact (of_isEscaped h).imp_right Or.inl
    · exact Or.inr (Or.inr h)
  · rw [hbytes _ _ (fun _ => isEscaped_of_mem) (by simp), List.length_nil] at h
    rw [hd, encode_fit_eq (by omega)]
  · rw [hbytes _ _ hdesc (fun _ => isEscaped_of_mem)] at h
    rw [hc, encode_fit_eq (by omega)]

/-- A name that is too long is cut. -/
theorem autoUnitName_long :
    (utf8 (autoUnitName "service".toList "my-de".toList (List.replicate 400 '-') "deadbeef".toList)).length ≤ 255 ∧
    (autoUnitName "service".toList "my-de".toList (List.replicate 400 '-') "deadbeef".toList).count '@' = 1 := by
  have hhex : ∀ x ∈ "deadbeef".toList, (digitVal 16 x).isSome = true := forall_mem_of_all (by decide)
  have h := autoUnitName_wellFormed "service".toList "my-de".toList (List.replicate 400 '-') "deadbeef".toList
    (Or.inr rfl) rfl hhex
  exact ⟨h.1, h.2.2.1.trans (if_neg (by decide))⟩

end Wsmr
