import Wsmr.App.Expansion

/-!
# Expansion as a reading from left to right (`gen_entry_args`)

The original tests for substrings in a fixed order. A token with `%%` keeps its field codes as they are, and `%c`
and `%k` are seen only when they are the whole token; else a token's contribution is that of `scanToken`
(`contribution_eq_iff`).
-/

namespace Wsmr

open Text

/-! ## From left to right -/

/-- What is put for a piece. -/
def Piece.text (args : List Str) (ctx : EntryCtx) : Piece → Str
  | .char c => [c]
  | .percent => ['%']
  | .code c =>
    if c = 'f' then args.headD []
    else if c = 'u' then path2url (args.headD [])
    else if c = 'c' then ctx.name
    else if c = 'k' then ctx.filename
    else ['%', c]

def deprecatedCodes : List Char := ['d', 'D', 'n', 'N', 'v', 'm']

/-- The contribution of a token that is read from left to right. -/
def scanToken (args : List Str) (ctx : EntryCtx) (tok : Str) : List Str :=
  if tok = "%F".toList then args
  else if tok = "%U".toList then args.map path2url
  else if tok = "%i".toList then if ctx.icon = [] then [] else ["--icon".toList, ctx.icon]
  else if (codes tok).any deprecatedCodes.contains then []
  else if args.isEmpty && (codes tok).any ['f', 'u'].contains then []
  else [(pieces tok).flatMap (Piece.text args ctx)]

/-- A token with `%%` and a field that is not left as it is, or with `%c` or `%k` in a longer token; unless what is
to be put there is that field again. -/
def Misread (args : List Str) (ctx : EntryCtx) (tok : Str) : Prop :=
  escapes tok = true ∧
      ((∃ c ∈ codes tok, c ∈ deprecatedCodes) ∨ 'f' ∈ codes tok ∧ args ≠ ["%f".toList] ∨ 'u' ∈ codes tok) ∨
    'c' ∈ codes tok ∧ tok ≠ "%c".toList ∧ ctx.name ≠ "%c".toList ∨
    'k' ∈ codes tok ∧ tok ≠ "%k".toList ∧ ctx.filename ≠ "%k".toList

instance (args : List Str) (ctx : EntryCtx) (tok : Str) : Decidable (Misread args ctx tok) :=
  decidable_of_iff (escapes tok = true ∧
      ((codes tok).any deprecatedCodes.contains = true ∨ 'f' ∈ codes tok ∧ args ≠ ["%f".toList] ∨ 'u' ∈ codes tok) ∨
    'c' ∈ codes tok ∧ tok ≠ "%c".toList ∧ ctx.name ≠ "%c".toList ∨
    'k' ∈ codes tok ∧ tok ≠ "%k".toList ∧ ctx.filename ≠ "%k".toList) (by simp [Misread])

theorem hasDeprecated_eq {tok : Str} (h : escapes tok = false) :
    hasDeprecated tok = (codes tok).any deprecatedCodes.contains := by
  have halpha : ∀ x ∈ deprecatedCodes, isAsciiAlphabetic x = true := forall_mem_of_all (by decide)
  have hd : ∀ x ∈ deprecatedCodes, containsStr ['%', x] tok = (codes tok).contains x := fun x hx =>
    containsStr_code (halpha x hx) tok h
  have hall : hasDeprecated tok = deprecatedCodes.any fun x => containsStr ['%', x] tok := rfl
  rw [hall, Bool.eq_iff_iff, List.any_eq_true, List.any_eq_true]
  constructor
  · rintro ⟨x, hx, hc⟩
    rw [hd x hx, List.contains_iff_mem] at hc
    exact ⟨x, hc, List.contains_iff_mem.2 hx⟩
  · rintro ⟨x, hc, hx⟩
    rw [List.contains_iff_mem] at hx
    exact ⟨x, hx, by rw [hd x hx, List.contains_iff_mem]; exact hc⟩

theorem path2url_ne_percent (a s : Str) : path2url a ≠ '%' :: s := by
  unfold path2url
  split
  · rintro rfl
    rename_i h
    exact absurd h (by simp [hasUriScheme, isAsciiAlphabetic])
  · intro h
    exact absurd (List.cons.inj h).1 (by decide)

section
variable {args : List Str} {ctx : EntryCtx} {tok : Str} {f g : Piece → Str}

/-- Two readings that differ in fields alone. -/
theorem flatMap_pieces_eq (hfg : ∀ p ∈ pieces tok, p.code? = none → f p = g p) (h : codes tok = []) :
    (pieces tok).flatMap f = (pieces tok).flatMap g :=
  List.flatMap_congr fun p hp => hfg p hp (List.filterMap_eq_nil_iff.1 h p hp)

theorem flatMap_pieces_eq_iff (hfg : ∀ p ∈ pieces tok, p.code? = none → f p = g p) {x : Char} (h : codes tok = [x]) :
    (pieces tok).flatMap f = (pieces tok).flatMap g ↔ f (.code x) = g (.code x) := by
  obtain ⟨l, r, hp, hnone⟩ := pieces_eq h
  rw [hp] at hfg ⊢
  have hl : l.flatMap f = l.flatMap g := List.flatMap_congr fun p hpl =>
    hfg p (List.mem_append_left _ hpl) (hnone p (List.mem_append_left r hpl))
  have hr : r.flatMap f = r.flatMap g := List.flatMap_congr fun p hpr =>
    hfg p (List.mem_append_right l (List.mem_cons_of_mem _ hpr)) (hnone p (List.mem_append_right l hpr))
  simp only [List.flatMap_append, List.flatMap_cons, hl, hr, List.append_cancel_left_eq, List.append_cancel_right_eq]

/-- A token without a field for arguments: with `%%`, dropped, or neither. -/
theorem contribution_plain {s t : FieldState} (h : expandToken args ctx s tok = .ok t) (hk : fieldKind tok = none) :
    escapes tok = true ∧ contribution args ctx tok = [(pieces tok).flatMap Piece.unescaped] ∨
      escapes tok = false ∧ (codes tok).any deprecatedCodes.contains = true ∧ contribution args ctx tok = [] ∨
      escapes tok = false ∧ (codes tok).any deprecatedCodes.contains = false ∧ 'f' ∉ codes tok ∧ 'u' ∉ codes tok ∧
        tok ≠ "%F".toList ∧ tok ≠ "%U".toList ∧ contribution args ctx tok =
          if tok = "%c".toList then [ctx.name]
          else if tok = "%k".toList then [ctx.filename]
          else if tok = "%i".toList then if ctx.icon = [] then [] else ["--icon".toList, ctx.icon]
          else [tok] := by
  have hcount : ¬ countFields tok > 1 := by
    have := (expandToken_ok h).1
    omega
  have hescape := containsStr_escape tok
  by_cases he : escapes tok = true
  · refine Or.inl ⟨he, ?_⟩
    simp only [contribution, expandToken, hcount, if_false]
    rw [if_pos (show containsStr "%%".toList tok = true from hescape.trans he)]
    exact congrArg (fun r => [r]) (replace_escape tok)
  rw [Bool.not_eq_true] at he
  by_cases hd : hasDeprecated tok = true
  · refine Or.inr (Or.inl ⟨he, hasDeprecated_eq he ▸ hd, ?_⟩)
    simp only [contribution, expandToken, hcount, hescape, he, hd, if_false, if_true, Bool.false_eq_true]
  rw [Bool.not_eq_true] at hd
  obtain ⟨hf, hF, hu, hU⟩ : containsStr "%f".toList tok = false ∧ tok ≠ "%F".toList ∧
      containsStr "%u".toList tok = false ∧ tok ≠ "%U".toList := by
    simp only [fieldKind, hescape, he, hd, Bool.or_self, Bool.false_eq_true, if_false] at hk
    split at hk
    · cases hk
    split at hk
    · cases hk
    split at hk
    · cases hk
    split at hk
    · cases hk
    · simp only [Bool.not_eq_true] at *
      exact ⟨by assumption, by assumption, by assumption, by assumption⟩
  have hcode : ∀ {x}, isAsciiAlphabetic x = true → containsStr ['%', x] tok = false → x ∉ codes tok := by
    intro x hx hc hmem
    rw [containsStr_code hx tok he, List.contains_iff_mem.2 hmem] at hc
    cases hc
  refine Or.inr (Or.inr ⟨he, hasDeprecated_eq he ▸ hd, hcode (by decide) hf, hcode (by decide) hu, hF, hU, ?_⟩)
  have hlist : containsStr "%F".toList tok = false ∧ containsStr "%U".toList tok = false := by
    simp only [expandToken, hcount, hescape, he, hd, hf, hF, hu, hU, if_false, Bool.false_eq_true] at h
    split at h
    · cases h
    split at h
    · cases h
    · simp only [Bool.not_eq_true] at *
      exact ⟨by assumption, by assumption⟩
  simp only [contribution, expandToken, hcount, hescape, he, hd, hf, hF, hu, hU, hlist, if_false, Bool.false_eq_true]
  by_cases hname : tok = "%c".toList
  · rw [if_pos hname, if_pos hname]
    rfl
  by_cases hfilename : tok = "%k".toList
  · rw [if_neg hname, if_neg hname, if_pos hfilename, if_pos hfilename]
    rfl
  by_cases hicon : tok = "%i".toList
  · rw [if_neg hname, if_neg hname, if_neg hfilename, if_neg hfilename, if_pos hicon, if_pos hicon]
    exact apply_ite FieldState.out _ _ _
  · rw [if_neg hname, if_neg hname, if_neg hfilename, if_neg hfilename, if_neg hicon, if_neg hicon]
    rfl

/-- A token that is more than a field. -/
theorem scanToken_of_ne (hF : tok ≠ "%F".toList) (hU : tok ≠ "%U".toList) (hi : tok ≠ "%i".toList) :
    scanToken args ctx tok =
    if (codes tok).any deprecatedCodes.contains then []
    else if args.isEmpty && (codes tok).any ['f', 'u'].contains then []
    else [(pieces tok).flatMap (Piece.text args ctx)] := by
  rw [scanToken, if_neg hF, if_neg hU, if_neg hi]

theorem ne_of_escapes (h : escapes tok = true) {field : Str} (hf : escapes field = false) : tok ≠ field := by
  rintro rfl
  rw [h] at hf
  cases hf

theorem ne_of_codes {x : Char} (h : codes tok = [x]) {field : Str} (hf : codes field ≠ [x]) : tok ≠ field := by
  rintro rfl
  exact hf h

/-- A field for arguments is read as it is meant. -/
theorem contribution_field (hcount : countFields tok ≤ 1) (hargs : args.length ≤ 1) {k : FieldKind}
    (hk : fieldKind tok = some k) : contribution args ctx tok = scanToken args ctx tok ∧ ¬ Misread args ctx tok := by
  obtain ⟨hcodes, hescape⟩ := codes_of_fieldKind hcount hk
  refine ⟨?_, ?_⟩
  · cases hlist : k.isList with
    | true =>
      obtain ⟨hc, htok⟩ := @contribution_list args ctx tok k hk hlist
      rw [hc, htok]
      cases k with
      | files => exact (List.map_id args).trans (if_pos rfl).symm
      | urls => rfl
      | _ => cases hlist
    | false =>
      have hF : tok ≠ "%F".toList := ne_of_codes hcodes (by revert hlist; cases k <;> decide)
      have hU : tok ≠ "%U".toList := ne_of_codes hcodes (by revert hlist; cases k <;> decide)
      have hi : tok ≠ "%i".toList := ne_of_codes hcodes (by cases k <;> decide)
      rw [contribution_one hcount hk hlist, scanToken_of_ne hF hU hi, hcodes, if_neg (by cases k <;> decide)]
      rcases args with _ | ⟨a, _ | ⟨b, args⟩⟩
      · exact (if_pos (by revert hlist; cases k <;> decide)).symm
      · rw [if_neg (by simp)]
        refine congrArg (fun r => [r]) ?_
        rw [field_eq, replace_code (by cases k <;> decide) _ _ hescape]
        refine List.flatMap_congr fun p hp => ?_
        cases p with
        | char c => rfl
        | percent => exact absurd (List.contains_iff_mem.2 hp) (by simpa [escapes] using hescape)
        | code c =>
          have hc : c ∈ codes tok := List.mem_filterMap.2 ⟨_, hp, rfl⟩
          rw [hcodes] at hc
          obtain rfl := List.mem_singleton.1 hc
          cases k with
          | file | url => rfl
          | _ => cases hlist
      · simp at hargs
  · rintro (⟨he, -⟩ | ⟨hc, -⟩ | ⟨hc, -⟩)
    · rw [hescape] at he
      cases he
    · rw [hcodes] at hc
      exact absurd hc (by cases k <;> decide)
    · rw [hcodes] at hc
      exact absurd hc (by cases k <;> decide)

/-- Two readings of a token as one word. -/
theorem singleton_text_eq_iff (hcount : countFields tok ≤ 1)
    (hf : ∀ p ∈ pieces tok, p.code? = none → f p = Piece.text args ctx p) :
    [(pieces tok).flatMap f] = [(pieces tok).flatMap (Piece.text args ctx)] ↔
      ∀ x ∈ codes tok, f (.code x) = Piece.text args ctx (.code x) := by
  rw [List.cons.injEq, and_iff_left rfl]
  rw [countFields_eq] at hcount
  rcases hcodes : codes tok with _ | ⟨x, _ | ⟨y, xs⟩⟩
  · exact ⟨fun _ => nofun, fun _ => flatMap_pieces_eq hf hcodes⟩
  · rw [flatMap_pieces_eq_iff hf hcodes, List.forall_mem_singleton]
  · rw [hcodes] at hcount
    simp at hcount

/-- A code stands for itself, unless it is the code of a field with another text. -/
theorem code_eq_text {x : Char} (hf : x = 'f' → args = ["%f".toList]) (hu : x ≠ 'u')
    (hc : x = 'c' → ctx.name = "%c".toList) (hk : x = 'k' → ctx.filename = "%k".toList) :
    ['%', x] = Piece.text args ctx (.code x) := by
  unfold Piece.text
  dsimp only
  rw [if_neg hu]
  split
  · subst x
    rw [hf rfl]
    rfl
  split
  · subst x
    exact (hc rfl).symm
  split
  · subst x
    exact (hk rfl).symm
  · rfl

/-- A token with `%%`. -/
theorem unescaped_eq_scanToken_iff (hcount : countFields tok ≤ 1) (hargs : args.length ≤ 1) (he : escapes tok = true) :
    [(pieces tok).flatMap Piece.unescaped] = scanToken args ctx tok ↔ ¬ Misread args ctx tok := by
  have hne : ∀ {field}, escapes field = false → tok ≠ field := ne_of_escapes he
  rw [scanToken_of_ne (hne (by decide)) (hne (by decide)) (hne (by decide))]
  have hmisread : Misread args ctx tok ↔ (∃ c ∈ codes tok, c ∈ deprecatedCodes) ∨
      'f' ∈ codes tok ∧ args ≠ ["%f".toList] ∨ 'u' ∈ codes tok ∨ 'c' ∈ codes tok ∧ ctx.name ≠ "%c".toList ∨
        'k' ∈ codes tok ∧ ctx.filename ≠ "%k".toList := by
    simp only [Misread, he, true_and, and_iff_right (hne (show escapes "%c".toList = false by decide)),
      and_iff_right (hne (show escapes "%k".toList = false by decide)), or_assoc]
  rw [hmisread]
  split
  · rename_i hd
    obtain ⟨c, hc, hcd⟩ := List.any_eq_true.1 hd
    exact ⟨nofun, fun hno => absurd (Or.inl ⟨c, hc, List.contains_iff_mem.1 hcd⟩) hno⟩
  rename_i hd
  split
  · rename_i hdropped
    obtain ⟨hnil, hfu⟩ := Bool.and_eq_true_iff.1 hdropped
    obtain ⟨c, hc, hcfu⟩ := List.any_eq_true.1 hfu
    refine ⟨nofun, fun hno => absurd ?_ hno⟩
    rcases List.mem_pair.1 (List.contains_iff_mem.1 hcfu) with rfl | rfl
    · exact Or.inr (Or.inl ⟨hc, by rw [List.isEmpty_iff.1 hnil]; exact (List.cons_ne_nil _ _).symm⟩)
    · exact Or.inr (Or.inr (Or.inl hc))
  · rename_i hkept
    have hone : 'f' ∈ codes tok → ∃ a, args = [a] := fun hf => by
      rcases args with _ | ⟨a, _ | ⟨b, args⟩⟩
      · exact absurd (Bool.and_eq_true_iff.2 ⟨rfl, List.any_eq_true.2 ⟨'f', hf, rfl⟩⟩) hkept
      · exact ⟨a, rfl⟩
      · simp at hargs
    rw [singleton_text_eq_iff hcount fun p _ hp => by cases p <;> first | rfl | cases hp]
    constructor
    · rintro hall (⟨c, hc, hcd⟩ | ⟨hf, hargs'⟩ | hu | ⟨hc, hname⟩ | ⟨hk, hfilename⟩)
      · exact hd (List.any_eq_true.2 ⟨c, hc, List.contains_iff_mem.2 hcd⟩)
      · obtain ⟨a, rfl⟩ := hone hf
        exact hargs' (congrArg (fun r => [r]) (hall _ hf).symm)
      · exact path2url_ne_percent _ _ (hall _ hu).symm
      · exact hname (hall _ hc).symm
      · exact hfilename (hall _ hk).symm
    · intro hno x hx
      simp only [not_or, not_and, not_not] at hno
      obtain ⟨-, hf, hu, hc, hk⟩ := hno
      exact code_eq_text (fun he => hf (he ▸ hx)) (fun he => hu (he ▸ hx)) (fun he => hc (he ▸ hx))
        fun he => hk (he ▸ hx)

/-- The fields that stand for something of the entry. -/
theorem not_misread_field (h : tok ∈ ["%c".toList, "%k".toList, "%i".toList]) : ¬ Misread args ctx tok := by
  simp only [List.mem_cons, List.not_mem_nil, or_false] at h
  rcases h with rfl | rfl | rfl
  · rintro (⟨he, -⟩ | ⟨-, hne, -⟩ | ⟨hcode, -, -⟩)
    · exact absurd he (by decide)
    · exact hne rfl
    · exact absurd hcode (by decide)
  · rintro (⟨he, -⟩ | ⟨hcode, -, -⟩ | ⟨-, hne, -⟩)
    · exact absurd he (by decide)
    · exact absurd hcode (by decide)
    · exact hne rfl
  · rintro (⟨he, -⟩ | ⟨hcode, -, -⟩ | ⟨hcode, -, -⟩)
    · exact absurd he (by decide)
    · exact absurd hcode (by decide)
    · exact absurd hcode (by decide)

/-- A token without `%%`, dropped codes and fields for arguments. -/
theorem plain_eq_scanToken_iff (hcount : countFields tok ≤ 1) (he : escapes tok = false)
    (hd : (codes tok).any deprecatedCodes.contains = false) (hf : 'f' ∉ codes tok) (hu : 'u' ∉ codes tok)
    (hF : tok ≠ "%F".toList) (hU : tok ≠ "%U".toList) :
    (if tok = "%c".toList then [ctx.name]
      else if tok = "%k".toList then [ctx.filename]
      else if tok = "%i".toList then if ctx.icon = [] then [] else ["--icon".toList, ctx.icon]
      else [tok]) = scanToken args ctx tok ↔ ¬ Misread args ctx tok := by
  split
  · subst tok
    have hscan : scanToken args ctx "%c".toList = [ctx.name ++ []] := by cases args <;> rfl
    rw [hscan, List.append_nil]
    exact iff_of_true rfl (not_misread_field (by simp))
  split
  · subst tok
    have hscan : scanToken args ctx "%k".toList = [ctx.filename ++ []] := by cases args <;> rfl
    rw [hscan, List.append_nil]
    exact iff_of_true rfl (not_misread_field (by simp))
  split
  · subst tok
    exact iff_of_true rfl (not_misread_field (by simp))
  rename_i hc hk hi
  have hfu : ¬ (args.isEmpty && (codes tok).any ['f', 'u'].contains) = true := by
    intro h
    obtain ⟨c, hcode, hcfu⟩ := List.any_eq_true.1 (Bool.and_eq_true_iff.1 h).2
    rcases List.mem_pair.1 (List.contains_iff_mem.1 hcfu) with rfl | rfl
    · exact hf hcode
    · exact hu hcode
  rw [scanToken_of_ne hF hU hi, if_neg (by rw [hd]; decide), if_neg hfu]
  have hsource : [tok] = [(pieces tok).flatMap Piece.source] := by rw [source_pieces]
  rw [hsource, singleton_text_eq_iff hcount fun p hp hnone => ?_]
  · constructor
    · rintro hall (⟨he', -⟩ | ⟨hcode, -, hname⟩ | ⟨hcode, -, hfilename⟩)
      · exact Bool.noConfusion (he.symm.trans he')
      · exact hname (hall _ hcode).symm
      · exact hfilename (hall _ hcode).symm
    · intro hno x hx
      simp only [Misread, not_or, not_and, not_not] at hno
      exact code_eq_text (fun hxf => absurd (hxf ▸ hx) hf) (fun hxu => hu (hxu ▸ hx))
        (fun hxc => hno.2.1 (hxc ▸ hx) hc) fun hxk => hno.2.2 (hxk ▸ hx) hk
  · cases p with
    | char c => rfl
    | percent => exact absurd (List.contains_iff_mem.2 hp) (by simpa [escapes] using he)
    | code c => cases hnone

/-- **Each token that is not refused** is read as it is meant, or misread. -/
theorem contribution_eq_iff {s t : FieldState} (h : expandToken args ctx s tok = .ok t) (hargs : args.length ≤ 1) :
    contribution args ctx tok = scanToken args ctx tok ↔ ¬ Misread args ctx tok := by
  have hcount : countFields tok ≤ 1 := (expandToken_ok h).1
  cases hk : fieldKind tok with
  | some k =>
    obtain ⟨heq, hread⟩ := @contribution_field args ctx tok hcount hargs k hk
    exact ⟨fun _ => hread, fun _ => heq⟩
  | none =>
    rcases contribution_plain h hk with ⟨he, hc⟩ | ⟨he, hd, hc⟩ | ⟨he, hd, hf, hu, hF, hU, hc⟩
    · rw [hc]
      exact unescaped_eq_scanToken_iff hcount hargs he
    · rw [hc]
      have hne : ∀ {field}, (codes field).any deprecatedCodes.contains = false → tok ≠ field := by
        rintro field hf rfl
        rw [hd] at hf
        cases hf
      rw [scanToken_of_ne (hne (by decide)) (hne (by decide)) (hne (by decide)), if_pos hd]
      obtain ⟨c, hcode, hcd⟩ := List.any_eq_true.1 hd
      have hcodes : codes tok = [c] := codes_eq hcount hcode
      refine ⟨fun _ => ?_, fun _ => rfl⟩
      rintro (⟨he', -⟩ | ⟨hc', -⟩ | ⟨hc', -⟩)
      · rw [he] at he'
        cases he'
      · rw [hcodes, List.mem_singleton] at hc'
        exact absurd hcd (by rw [← hc']; decide)
      · rw [hcodes, List.mem_singleton] at hc'
        exact absurd hcd (by rw [← hc']; decide)
    · rw [hc]
      exact plain_eq_scanToken_iff hcount he hd hf hu hF hU

end

/-- **Expansion is a reading from left to right**, unless a token is misread. -/
theorem expansion_eq_scan_iff (exec args : List Str) (ctx : EntryCtx) (gen : GenArgs)
    (h : genEntryArgs exec args ctx = .ok gen) (hargs : args.length ≤ 1) :
    (∃ cmd, exec.head? = some cmd ∧ gen = .single (cmd :: exec.tail.flatMap (contribution args ctx))) ∧
      ((∀ tok ∈ exec.tail, contribution args ctx tok = scanToken args ctx tok) ↔
        ∀ tok ∈ exec.tail, ¬ Misread args ctx tok) := by
  obtain ⟨cmd, toks, rfl, haccepted, hgen⟩ := genEntryArgs_ok h
  refine ⟨⟨cmd, rfl, ?_⟩, forall₂_congr fun tok ht => ?_⟩
  · rcases hgen with ⟨-, rfl, rfl⟩ | ⟨before, tok, after, k, hone, rfl⟩
    · rfl
    · have hsingle : ¬ args.length > 1 := by omega
      rw [expansion, decide_eq_false hsingle, Bool.false_and, if_neg Bool.false_ne_true, List.tail_cons, hone.toks]
      simp
  · obtain ⟨s, t, htok⟩ := haccepted tok ht
    exact contribution_eq_iff htok hargs

theorem expansion_eq_scan_app :
    ["--open=%f".toList, "%i".toList, "100%%".toList].map (contribution ["/a".toList] myApp) =
      ["--open=%f".toList, "%i".toList, "100%%".toList].map (scanToken ["/a".toList] myApp) :=
  List.map_congr_left ((expansion_eq_scan_iff ("app".toList :: ["--open=%f".toList, "%i".toList, "100%%".toList])
    ["/a".toList] myApp (.single ["app".toList, "--open=/a".toList, "--icon".toList, "myicon".toList, "100%".toList])
    (by decide) (by decide)).2.2 (by decide))

/-- `%c` is not seen next to `%%`, nor within a longer token. -/
theorem fields_misread :
    genEntryArgs ["app".toList, "100%%-%c".toList, "--name=%c".toList] [] myApp =
        .ok (.single ["app".toList, "100%-%c".toList, "--name=%c".toList]) ∧
      contribution [] myApp "100%%-%c".toList ≠ scanToken [] myApp "100%%-%c".toList ∧
      contribution [] myApp "--name=%c".toList ≠ scanToken [] myApp "--name=%c".toList := by
  decide

end Wsmr
