import Wsmr.App.Pieces

/-!
# Arguments in the expansion of `Exec` (`gen_entry_args`)

`contribution` is what a token adds to the command line, `genEntryArgs_ok` the command lines made of it. No
argument is lost, unless there are several for a field within a longer token (`arguments_kept_iff`).
-/

namespace Wsmr

open Text

/-! ## The original, token by token -/

/-- What a token adds to the command line. -/
def contribution (args : List Str) (ctx : EntryCtx) (tok : Str) : List Str :=
  match expandToken args ctx ⟨[], none, none⟩ tok with
  | .ok s => s.out
  | .error _ => []

/-- The fields that stand for arguments. -/
inductive FieldKind where
  | file | files | url | urls
  deriving DecidableEq, Repr

/-- As the original tells them apart. -/
def fieldKind (tok : Str) : Option FieldKind :=
  if containsStr "%%".toList tok || hasDeprecated tok then none
  else if containsStr "%f".toList tok then some .file
  else if tok = "%F".toList then some .files
  else if containsStr "%u".toList tok then some .url
  else if tok = "%U".toList then some .urls
  else none

/-- The letter of a field. -/
def FieldKind.letter : FieldKind → Char
  | .file => 'f'
  | .files => 'F'
  | .url => 'u'
  | .urls => 'U'

def FieldKind.isList : FieldKind → Bool
  | .files | .urls => true
  | .file | .url => false

/-- What a token with a field for one argument adds. -/
def oneArgPart (field : Str) (convert : Str → Str) (args : List Str) (tok : Str) : List Str :=
  match args with
  | [] => []
  | [a] => [replace field (convert a) tok]
  | _ => [tok]

section
variable {field : Str} {convert : Str → Str} {args : List Str} {ctx : EntryCtx} {tok : Str} {s s' t : FieldState}

theorem oneArg_of_none (h : s.encounteredFu = none) : oneArg field convert args s tok =
    .ok ⟨s.out ++ oneArgPart field convert args tok, some tok, some s.out.length⟩ := by
  unfold oneArg oneArgPart
  rw [h]
  rcases args with _ | ⟨a, _ | ⟨b, args⟩⟩
  · simp [guardConflict, bind, Except.bind, pure, Except.pure]
  · rfl
  · rfl

theorem allArgs_of_none (h : s.encounteredFu = none) :
    allArgs convert args s tok = .ok ⟨s.out ++ args.map convert, some tok, s.fuIdx⟩ := by
  unfold allArgs
  rw [h]
  rfl

theorem oneArg_ok (h : oneArg field convert args s tok = .ok t) : s.encounteredFu = none := by
  unfold oneArg at h
  cases hfu : s.encounteredFu with
  | none => rfl
  | some p =>
    rw [hfu] at h
    cases h

theorem allArgs_ok (h : allArgs convert args s tok = .ok t) : s.encounteredFu = none := by
  unfold allArgs at h
  cases hfu : s.encounteredFu with
  | none => rfl
  | some p =>
    rw [hfu] at h
    cases h

theorem fieldKind_some {k : FieldKind} (h : fieldKind tok = some k) :
    containsStr "%%".toList tok = false ∧ hasDeprecated tok = false ∧
      match k with
      | .file => containsStr "%f".toList tok = true
      | .files => tok = "%F".toList
      | .url => containsStr "%f".toList tok = false ∧ containsStr "%u".toList tok = true
      | .urls => tok = "%U".toList := by
  unfold fieldKind at h
  split at h
  · cases h
  rename_i hplain
  obtain ⟨hescape, hdeprecated⟩ : containsStr "%%".toList tok = false ∧ hasDeprecated tok = false := by
    simpa only [Bool.or_eq_true, not_or, Bool.not_eq_true] using hplain
  refine ⟨hescape, hdeprecated, ?_⟩
  split at h
  · obtain rfl := Option.some.inj h
    assumption
  rename_i hf
  split at h
  · obtain rfl := Option.some.inj h
    assumption
  split at h
  · obtain rfl := Option.some.inj h
    exact ⟨Bool.not_eq_true _ ▸ hf, by assumption⟩
  split at h
  · obtain rfl := Option.some.inj h
    assumption
  · cases h

theorem codes_of_fieldKind (hcount : countFields tok ≤ 1) {k : FieldKind} (hk : fieldKind tok = some k) :
    codes tok = [k.letter] ∧ escapes tok = false := by
  obtain ⟨hescape, -, htok⟩ := fieldKind_some hk
  have hescapes : escapes tok = false := containsStr_escape tok ▸ hescape
  refine ⟨?_, hescapes⟩
  have hcodes : ∀ {x}, isAsciiAlphabetic x = true → containsStr ['%', x] tok = true → codes tok = [x] := by
    intro x hx hc
    rw [containsStr_code hx tok hescapes, List.contains_iff_mem] at hc
    exact codes_eq hcount hc
  cases k with
  | file => exact hcodes (by decide) htok
  | files =>
    rw [htok]
    rfl
  | url => exact hcodes (by decide) htok.2
  | urls =>
    rw [htok]
    rfl

theorem contribution_oneArg (hcount : countFields tok ≤ 1) :
    (fieldKind tok = some .file → contribution args ctx tok = oneArgPart "%f".toList id args tok) ∧
      (fieldKind tok = some .url → contribution args ctx tok = oneArgPart "%u".toList path2url args tok) := by
  have hle : ¬ countFields tok > 1 := by omega
  constructor
  · intro h
    obtain ⟨hescape, hdeprecated, hf⟩ := fieldKind_some h
    simp only [contribution, expandToken, hle, hescape, hdeprecated, hf, if_false, if_true, Bool.false_eq_true]
    rw [oneArg_of_none rfl]
    rfl
  · intro h
    obtain ⟨hescape, hdeprecated, hf, hu⟩ := fieldKind_some h
    obtain ⟨hcodes, hescapes⟩ := codes_of_fieldKind hcount h
    have hF : containsStr "%F".toList tok = false := by
      refine (containsStr_code (by decide) tok hescapes).trans ?_
      rw [hcodes]
      decide
    have hne : ¬ tok = "%F".toList := by
      rintro rfl
      exact absurd hF (by decide)
    simp only [contribution, expandToken, hle, hescape, hdeprecated, hf, hne, hF, hu, if_false, if_true,
      Bool.false_eq_true]
    rw [oneArg_of_none rfl]
    rfl

/-- What one token does to the variables of the loop. -/
def Steps (args : List Str) (ctx : EntryCtx) (tok : Str) (s t : FieldState) : Prop :=
  t.out = s.out ++ contribution args ctx tok ∧
    match fieldKind tok with
    | none => t.encounteredFu = s.encounteredFu ∧ t.fuIdx = s.fuIdx
    | some k => s.encounteredFu = none ∧ t.encounteredFu = some tok ∧
      t.fuIdx = if k.isList then s.fuIdx else some s.out.length

theorem steps_oneArg {k : FieldKind} (hk : fieldKind tok = some k) (hlist : k.isList = false)
    (hc : contribution args ctx tok = oneArgPart field convert args tok) (h : oneArg field convert args s tok = .ok t) :
    Steps args ctx tok s t := by
  have hfu := oneArg_ok h
  rw [oneArg_of_none hfu] at h
  obtain rfl := Except.ok.inj h
  rw [Steps, hk, hc]
  exact ⟨rfl, hfu, rfl, by rw [hlist]; rfl⟩

theorem steps_allArgs {k : FieldKind} (hk : fieldKind tok = some k) (hlist : k.isList = true)
    (hc : contribution args ctx tok = args.map convert) (h : allArgs convert args s tok = .ok t) :
    Steps args ctx tok s t := by
  have hfu := allArgs_ok h
  rw [allArgs_of_none hfu] at h
  obtain rfl := Except.ok.inj h
  rw [Steps, hk, hc]
  exact ⟨rfl, hfu, rfl, by rw [hlist]; rfl⟩

theorem steps_plain {part : List Str} (hk : fieldKind tok = none) (hc : contribution args ctx tok = part)
    (h : .ok { s with out := s.out ++ part } = (.ok t : Except Error FieldState)) : Steps args ctx tok s t := by
  obtain rfl := Except.ok.inj h
  rw [Steps, hk, hc]
  exact ⟨rfl, rfl, rfl⟩

/-- **One token.** -/
theorem expandToken_ok (h : expandToken args ctx s tok = .ok t) : countFields tok ≤ 1 ∧ Steps args ctx tok s t := by
  have hcount : countFields tok ≤ 1 := by
    by_contra hmany
    rw [expandToken, if_pos (by omega)] at h
    cases h
  refine ⟨hcount, ?_⟩
  revert h
  fun_cases expandToken args ctx s tok with
  | case1 | case6 | case9 => nofun
  | case2 =>
    refine steps_plain ?_ ?_
    · simp only [fieldKind, *, if_true, Bool.true_or]
    · simp only [contribution, expandToken, *, if_true, if_false]
      rfl
  | case3 =>
    refine fun h => @steps_plain _ _ _ _ _ [] ?_ ?_ (by rwa [List.append_nil])
    · simp only [fieldKind, *, if_true, Bool.or_true]
    · simp only [contribution, expandToken, *, if_true, if_false, Bool.false_eq_true]
  | case4 =>
    refine steps_oneArg (k := .file) ?_ rfl ?_
    · simp only [fieldKind, *, if_true, if_false, Bool.or_self, Bool.false_eq_true]
    · simp only [contribution, expandToken, *, if_true, if_false, Bool.false_eq_true]
      rw [oneArg_of_none rfl]
      rfl
  | case5 _ _ _ _ htok =>
    subst htok
    exact steps_allArgs (k := .files) rfl rfl rfl
  | case7 =>
    refine steps_oneArg (k := .url) ?_ rfl ?_
    · simp only [fieldKind, *, if_true, if_false, Bool.or_self, Bool.false_eq_true]
    · simp only [contribution, expandToken, *, if_true, if_false, Bool.false_eq_true]
      rw [oneArg_of_none rfl]
      rfl
  | case8 _ _ _ _ _ _ _ htok =>
    subst htok
    exact steps_allArgs (k := .urls) rfl rfl rfl
  | case10 _ _ _ _ _ _ _ _ _ htok =>
    subst htok
    exact steps_plain rfl rfl
  | case11 _ _ _ _ _ _ _ _ _ _ htok =>
    subst htok
    exact steps_plain rfl rfl
  | case12 _ _ _ _ _ _ _ _ _ _ _ htok =>
    subst htok
    refine fun h => @steps_plain _ _ _ _ _ (if ctx.icon = [] then [] else ["--icon".toList, ctx.icon]) rfl ?_ ?_
    · exact apply_ite FieldState.out _ _ _
    · rw [← h]
      split
      · rw [List.append_nil]
      · rfl
  | case13 =>
    refine steps_plain ?_ ?_
    · simp only [fieldKind, *, if_false, Bool.or_self, Bool.false_eq_true]
    · simp only [contribution, expandToken, *, if_false, Bool.false_eq_true]
      rfl

end

/-! ## The loop -/

theorem modify_middle {x : Str} {after : List Str} {f : Str → Str} (before : List Str) :
    (before ++ [x] ++ after).modify before.length f = before ++ [f x] ++ after := by
  induction before with
  | nil => rfl
  | cons b before ih => exact congrArg (b :: ·) ih

theorem exists_two {l : List Str} (h : 1 < l.length) : ∃ a b l', l = a :: b :: l' := by
  rcases l with _ | ⟨a, _ | ⟨b, l⟩⟩
  · simp at h
  · simp at h
  · exact ⟨a, b, l, rfl⟩

/-- The one field among the tokens that stands for arguments. -/
structure OneField (toks before : List Str) (tok : Str) (after : List Str) (k : FieldKind) : Prop where
  toks : toks = before ++ tok :: after
  kind : fieldKind tok = some k
  others : ∀ other ∈ before ++ after, fieldKind other = none

/-- What the loop leaves in its variables. -/
def Looped (args : List Str) (ctx : EntryCtx) (toks : List Str) (s t : FieldState) : Prop :=
  t.out = s.out ++ toks.flatMap (contribution args ctx) ∧
    ((∀ tok ∈ toks, fieldKind tok = none) ∧ t.encounteredFu = s.encounteredFu ∧ t.fuIdx = s.fuIdx ∨
      s.encounteredFu = none ∧ ∃ before tok after k, OneField toks before tok after k ∧ t.encounteredFu = some tok ∧
        t.fuIdx = if k.isList then s.fuIdx else some (s.out ++ before.flatMap (contribution args ctx)).length)

theorem foldlM_expandToken {args : List Str} {ctx : EntryCtx} : ∀ {toks : List Str} {s t : FieldState},
    toks.foldlM (expandToken args ctx) s = .ok t →
      (∀ tok ∈ toks, ∃ s t, expandToken args ctx s tok = .ok t) ∧ Looped args ctx toks s t
  | [], s, t, h => by
    obtain rfl := Except.ok.inj h
    exact ⟨nofun, by simp, Or.inl ⟨nofun, rfl, rfl⟩⟩
  | tok :: toks, s, t, h => by
    rw [List.foldlM_cons] at h
    obtain ⟨u, hu, hrest⟩ : ∃ u, expandToken args ctx s tok = .ok u ∧ toks.foldlM (expandToken args ctx) u = .ok t := by
      cases hstep : expandToken args ctx s tok with
      | error e => rw [hstep] at h; cases h
      | ok u => exact ⟨u, rfl, by rwa [hstep] at h⟩
    obtain ⟨-, hout, hfield⟩ := expandToken_ok hu
    obtain ⟨haccepted, hout', hfields⟩ := foldlM_expandToken hrest
    refine ⟨List.forall_mem_cons.2 ⟨⟨s, u, hu⟩, haccepted⟩, by simp [hout', hout], ?_⟩
    cases hk : fieldKind tok with
    | none =>
      rw [hk] at hfield
      obtain ⟨hfu, hidx⟩ := hfield
      rcases hfields with ⟨hnone, hfu', hidx'⟩ | ⟨hnone, before, x, after, k, hone, hfu', hidx'⟩
      · exact Or.inl ⟨List.forall_mem_cons.2 ⟨hk, hnone⟩, hfu'.trans hfu, hidx'.trans hidx⟩
      · refine Or.inr ⟨hfu ▸ hnone, tok :: before, x, after, k, ⟨?_, hone.kind, ?_⟩, hfu', ?_⟩
        · rw [hone.toks, List.cons_append]
        · exact List.forall_mem_cons.2 ⟨hk, hone.others⟩
        · rw [hidx', hidx, hout, List.flatMap_cons, List.append_assoc]
    | some k =>
      rw [hk] at hfield
      obtain ⟨hnone, hfu, hidx⟩ := hfield
      rcases hfields with ⟨hothers, hfu', hidx'⟩ | ⟨hnone', -⟩
      · refine Or.inr ⟨hnone, [], tok, toks, k, ⟨rfl, hk, hothers⟩, hfu'.trans hfu, ?_⟩
        rw [hidx', hidx]
        simp
      · rw [hfu] at hnone'
        cases hnone'

/-- The command lines, when there is a field for arguments. -/
def expansion (args : List Str) (ctx : EntryCtx) (cmd : Str) (before : List Str) (tok : Str) (after : List Str) :
    GenArgs :=
  let around : List Str → List Str := fun part =>
    cmd :: before.flatMap (contribution args ctx) ++ part ++ after.flatMap (contribution args ctx)
  if args.length > 1 && (tok = "%f".toList || tok = "%u".toList) then
    .multi (args.map fun a => around [if tok = "%u".toList then path2url a else a])
  else .single (around (contribution args ctx tok))

section
variable {args : List Str} {ctx : EntryCtx} {cmd : Str} {before after : List Str} {tok : Str}

/-- One command line for each argument: the field has been left in its place. -/
theorem expansion_of_many (hlen : 1 < args.length) (htok : tok = "%f".toList ∨ tok = "%u".toList) :
    expansion args ctx cmd before tok after = .multi (args.map fun a => cmd ::
      (before.flatMap (contribution args ctx) ++ contribution args ctx tok ++
        after.flatMap (contribution args ctx)).modify (before.flatMap (contribution args ctx)).length
          (replace tok (if tok = "%u".toList then path2url a else a))) := by
  obtain ⟨a, b, args', rfl⟩ := exists_two hlen
  have hcontribution : contribution (a :: b :: args') ctx tok = [tok] := by
    rcases htok with rfl | rfl
    · exact (contribution_oneArg (by decide)).1 rfl
    · exact (contribution_oneArg (by decide)).2 rfl
  have hne : tok ≠ [] := by
    rcases htok with rfl | rfl <;> decide
  unfold expansion
  rw [if_pos (by simpa using htok), hcontribution]
  refine congrArg GenArgs.multi (List.map_congr_left fun x _ => ?_)
  rw [modify_middle, replace_self hne]
  rfl

/-- One command line, with everything in its place. -/
theorem expansion_of_list {k : FieldKind} (hkind : fieldKind tok = some k) (hlist : k.isList = true) :
    expansion args ctx cmd before tok after = .single (cmd :: (before.flatMap (contribution args ctx) ++
      contribution args ctx tok ++ after.flatMap (contribution args ctx))) := by
  have hf : ∀ {c}, fieldKind c = some .file ∨ fieldKind c = some .url → tok ≠ c := by
    rintro c hc rfl
    rw [hkind] at hc
    rcases hc with hc | hc <;> · rw [Option.some.inj hc] at hlist; cases hlist
  unfold expansion
  rw [decide_eq_false (hf (Or.inl rfl)), decide_eq_false (hf (Or.inr rfl))]
  simp only [Bool.or_self, Bool.and_false, Bool.false_eq_true, if_false]
  rfl

end

/-- **The whole expansion.** -/
theorem genEntryArgs_ok {exec args : List Str} {ctx : EntryCtx} {gen : GenArgs}
    (h : genEntryArgs exec args ctx = .ok gen) : ∃ cmd toks, exec = cmd :: toks ∧
      (∀ tok ∈ toks, ∃ s t, expandToken args ctx s tok = .ok t) ∧
      ((∀ tok ∈ toks, fieldKind tok = none) ∧ args = [] ∧
          gen = .single (cmd :: toks.flatMap (contribution args ctx)) ∨
        ∃ before tok after k, OneField toks before tok after k ∧ gen = expansion args ctx cmd before tok after) := by
  cases exec with
  | nil => cases h
  | cons cmd toks =>
    refine ⟨cmd, toks, rfl, ?_⟩
    cases hloop : toks.foldlM (expandToken args ctx) ⟨[], none, none⟩ with
    | error e =>
      simp only [genEntryArgs, List.head?_cons, List.drop_one, List.tail_cons, hloop] at h
      cases h
    | ok t =>
      obtain ⟨haccepted, hout, hfields⟩ := foldlM_expandToken hloop
      refine ⟨haccepted, ?_⟩
      simp only [genEntryArgs, List.head?_cons, List.drop_one, List.tail_cons, hloop, bind, Except.bind] at h
      rcases hfields with ⟨hnone, hfu, hidx⟩ | ⟨-, before, tok, after, k, hone, hfu, hidx⟩
      · refine Or.inl ⟨hnone, ?_⟩
        rw [hfu] at h
        cases args with
        | nil =>
          refine ⟨rfl, ?_⟩
          rw [← List.nil_append (toks.flatMap _), ← hout]
          exact (Except.ok.inj h).symm
        | cons a args => cases h
      · refine Or.inr ⟨before, tok, after, k, hone, ?_⟩
        have hparts : t.out = before.flatMap (contribution args ctx) ++ contribution args ctx tok ++
            after.flatMap (contribution args ctx) := by
          rw [hout, hone.toks]
          simp
        rw [hfu, hidx] at h
        simp only [Option.isNone_some, Bool.and_false, Bool.false_eq_true, if_false] at h
        cases hlist : k.isList with
        | true =>
          rw [hlist, if_pos rfl] at h
          rw [expansion_of_list hone.kind hlist, ← Except.ok.inj h, hparts]
        | false =>
          rw [hlist, if_neg (by decide), List.nil_append] at h
          dsimp only at h
          split at h
          · rename_i hmany
            simp only [Bool.and_eq_true, Bool.or_eq_true, decide_eq_true_eq] at hmany
            rw [expansion_of_many hmany.1 hmany.2, ← Except.ok.inj h, hparts]
          · rename_i hone'
            unfold expansion
            rw [if_neg hone', ← Except.ok.inj h, hparts]
            rfl

/-! ## Arguments are kept -/

def FieldKind.field : FieldKind → Str
  | .file => "%f".toList
  | .files => "%F".toList
  | .url => "%u".toList
  | .urls => "%U".toList

def FieldKind.convert : FieldKind → Str → Str
  | .file | .files => id
  | .url | .urls => path2url

/-- The arguments in the place of the field in its token, each once and in order. -/
def Inserted (k : FieldKind) (args : List Str) (tok : Str) (part : List Str) : Prop :=
  ∃ x y, tok = x ++ k.field ++ y ∧ part = args.map fun a => x ++ k.convert a ++ y

/-- No argument is lost: one command line has all, or there is one for each. -/
def Kept (exec args : List Str) (ctx : EntryCtx) (gen : GenArgs) : Prop :=
  ∃ cmd toks, exec = cmd :: toks ∧
    (args = [] ∧ (∀ tok ∈ toks, fieldKind tok = none) ∧ gen = .single (cmd :: toks.flatMap (contribution [] ctx)) ∨
      ∃ before tok after k part, OneField toks before tok after k ∧ Inserted k args tok part ∧
        let around : List Str → List Str := fun part =>
          cmd :: before.flatMap (contribution [] ctx) ++ part ++ after.flatMap (contribution [] ctx)
        (gen = .single (around part) ∨ gen = .multi (part.map fun p => around [p])))

/-- A field for one argument within a longer token. -/
def Embedded (tok : Str) : Prop :=
  (fieldKind tok = some .file ∨ fieldKind tok = some .url) ∧ tok ≠ "%f".toList ∧ tok ≠ "%u".toList

section
variable {args : List Str} {ctx : EntryCtx} {tok : Str}

theorem field_eq (k : FieldKind) : k.field = ['%', k.letter] := by cases k <;> rfl

/-- A token without a field for arguments. -/
theorem contribution_of_none (hk : fieldKind tok = none) : contribution args ctx tok = contribution [] ctx tok := by
  have hplain : expandToken args ctx ⟨[], none, none⟩ tok = expandToken [] ctx ⟨[], none, none⟩ tok := by
    revert hk
    unfold fieldKind
    fun_cases expandToken args ctx ⟨[], none, none⟩ tok
    all_goals
      simp only [*, expandToken, if_true, if_false, Bool.or_true, Bool.true_or, Bool.or_self, Bool.false_eq_true,
        reduceCtorEq, false_implies, implies_true]
    case case5 | case8 => exact fun h => absurd h (by decide)
    case case10 | case11 | case12 => exact fun _ => rfl
  rw [contribution, contribution, hplain]

theorem contribution_list {k : FieldKind} (hk : fieldKind tok = some k) (hlist : k.isList = true) :
    contribution args ctx tok = args.map k.convert ∧ tok = k.field := by
  obtain ⟨-, -, htok⟩ := fieldKind_some hk
  cases k with
  | files =>
    rw [htok]
    exact ⟨rfl, rfl⟩
  | urls =>
    rw [htok]
    exact ⟨rfl, rfl⟩
  | _ => cases hlist

theorem contribution_one (hcount : countFields tok ≤ 1) {k : FieldKind} (hk : fieldKind tok = some k)
    (hlist : k.isList = false) : contribution args ctx tok = oneArgPart k.field k.convert args tok := by
  cases k with
  | file => exact (contribution_oneArg hcount).1 hk
  | url => exact (contribution_oneArg hcount).2 hk
  | _ => cases hlist

theorem inserted_field (k : FieldKind) : Inserted k args k.field (args.map k.convert) :=
  ⟨[], [], by simp, by simp⟩

theorem inserted_contribution (hcount : countFields tok ≤ 1) {k : FieldKind} (hk : fieldKind tok = some k)
    (hone : k.isList = true ∨ args.length ≤ 1) : Inserted k args tok (contribution args ctx tok) := by
  cases hlist : k.isList with
  | true =>
    obtain ⟨hc, htok⟩ := @contribution_list args ctx tok k hk hlist
    rw [hc, htok]
    exact inserted_field k
  | false =>
    obtain ⟨hcodes, hescape⟩ := codes_of_fieldKind hcount hk
    obtain ⟨x, y, htok, hreplace⟩ := replace_field (by cases k <;> decide) hcodes hescape
    refine ⟨x, y, field_eq k ▸ htok, ?_⟩
    rw [contribution_one hcount hk hlist]
    rcases args with _ | ⟨a, _ | ⟨b, args⟩⟩
    · rfl
    · rw [oneArgPart, field_eq, hreplace]
      rfl
    · simp [hlist] at hone

end

theorem OneField.before_eq {toks before after : List Str} {tok : Str} {k : FieldKind}
    (h : OneField toks before tok after k) :
    before = toks.takeWhile fun t => (fieldKind t).isNone := by
  have hbefore : ∀ t ∈ before, (fieldKind t).isNone = true := fun t ht => by
    rw [h.others t (List.mem_append_left after ht)]
    rfl
  rw [h.toks, List.takeWhile_append_of_pos hbefore, List.takeWhile_cons_of_neg (by simp [h.kind]), List.append_nil]

theorem OneField.unique {toks before before' after after' : List Str} {tok tok' : Str} {k k' : FieldKind}
    (h : OneField toks before tok after k) (h' : OneField toks before' tok' after' k') :
    before = before' ∧ tok = tok' ∧ after = after' := by
  have hbefore : before = before' := h.before_eq.trans h'.before_eq.symm
  have htoks := h.toks.symm.trans h'.toks
  rw [hbefore, List.append_cancel_left_eq] at htoks
  exact ⟨hbefore, List.cons.inj htoks⟩

/-- The contributions of the other tokens do not depend on the arguments. -/
theorem OneField.around_eq {toks before after : List Str} {tok : Str} {k : FieldKind}
    (h : OneField toks before tok after k) (args : List Str) (ctx : EntryCtx) :
    before.flatMap (contribution args ctx) = before.flatMap (contribution [] ctx) ∧
      after.flatMap (contribution args ctx) = after.flatMap (contribution [] ctx) := by
  have hothers : ∀ ts ⊆ before ++ after, ts.flatMap (contribution args ctx) = ts.flatMap (contribution [] ctx) :=
    fun ts hts => List.flatMap_congr fun t ht => contribution_of_none (h.others t (hts ht))
  exact ⟨hothers before (List.subset_append_left _ _), hothers after (List.subset_append_right _ _)⟩

section
variable {exec args : List Str} {ctx : EntryCtx} {gen : GenArgs}

/-- Several arguments for a field within a longer token: the token stays as it is. -/
theorem not_kept_of_embedded (h : genEntryArgs exec args ctx = .ok gen) (hmany : 1 < args.length)
    (hembedded : ∃ tok ∈ exec.tail, Embedded tok) : ¬ Kept exec args ctx gen := by
  obtain ⟨cmd, toks, rfl, haccepted, ⟨hnone, rfl, rfl⟩ | ⟨before, tok, after, k, hone, rfl⟩⟩ := genEntryArgs_ok h
  · exact absurd hmany (by simp)
  obtain ⟨_, _, htok⟩ := haccepted tok (by rw [hone.toks]; simp)
  have hcount : countFields tok ≤ 1 := (expandToken_ok htok).1
  obtain ⟨hbefore, hafter⟩ := hone.around_eq args ctx
  unfold expansion
  rw [hbefore, hafter]
  obtain ⟨t, ht, hkind, hf, hu⟩ := hembedded
  rintro ⟨cmd', toks', heq, hkept⟩
  obtain ⟨rfl, rfl⟩ := List.cons.inj heq
  obtain rfl : t = tok := by
    rw [List.tail_cons, hone.toks, List.mem_append, List.mem_cons] at ht
    by_contra hne
    have hnone : fieldKind t = none :=
      hone.others t (List.mem_append.2 (ht.imp_right fun h => h.resolve_left hne))
    rw [hnone] at hkind
    rcases hkind with h | h <;> cases h
  have hpart : contribution args ctx t = [t] := by
    obtain ⟨a, b, args', rfl⟩ := exists_two hmany
    exact hkind.elim (contribution_oneArg hcount).1 (contribution_oneArg hcount).2
  rw [decide_eq_false hf, decide_eq_false hu, Bool.or_self, Bool.and_false, if_neg Bool.false_ne_true, hpart] at hkept
  rcases hkept with ⟨rfl, -⟩ | ⟨before', tok', after', k', part, hone', ⟨x, y, -, hinserted⟩, hgen⟩
  · exact absurd hmany (by simp)
  · obtain ⟨rfl, rfl, rfl⟩ := hone.unique hone'
    rcases hgen with hgen | hgen
    · have hsame := GenArgs.single.inj hgen
      rw [List.append_cancel_right_eq, List.append_cancel_left_eq] at hsame
      have hlen := congrArg List.length (hsame.trans hinserted)
      rw [List.length_map, List.length_singleton] at hlen
      omega
    · cases hgen

theorem kept_of_not_embedded (h : genEntryArgs exec args ctx = .ok gen)
    (hkept : ¬ (1 < args.length ∧ ∃ tok ∈ exec.tail, Embedded tok)) : Kept exec args ctx gen := by
  obtain ⟨cmd, toks, rfl, haccepted, ⟨hnone, rfl, rfl⟩ | ⟨before, tok, after, k, hone, rfl⟩⟩ := genEntryArgs_ok h
  · exact ⟨cmd, toks, rfl, Or.inl ⟨rfl, hnone, rfl⟩⟩
  obtain ⟨_, _, htok⟩ := haccepted tok (by rw [hone.toks]; simp)
  have hcount : countFields tok ≤ 1 := (expandToken_ok htok).1
  obtain ⟨hbefore, hafter⟩ := hone.around_eq args ctx
  unfold expansion
  rw [hbefore, hafter]
  refine ⟨cmd, toks, rfl, Or.inr ⟨before, tok, after, k, ?_⟩⟩
  split
  · rename_i hmany
    simp only [Bool.and_eq_true, Bool.or_eq_true, decide_eq_true_eq] at hmany
    obtain ⟨hfield, hconvert⟩ : tok = k.field ∧ ∀ a, (if tok = "%u".toList then path2url a else a) = k.convert a := by
      have hkind := hone.kind
      rcases hmany.2 with rfl | rfl
      · obtain rfl := Option.some.inj (hkind.symm.trans (rfl : _ = some FieldKind.file))
        exact ⟨rfl, fun a => rfl⟩
      · obtain rfl := Option.some.inj (hkind.symm.trans (rfl : _ = some FieldKind.url))
        exact ⟨rfl, fun a => rfl⟩
    refine ⟨args.map k.convert, hone, hfield ▸ inserted_field k, Or.inr ?_⟩
    simp only [hconvert, List.map_map]
    rfl
  · rename_i hmany
    refine ⟨_, hone, @inserted_contribution args ctx tok hcount k hone.kind ?_, Or.inl rfl⟩
    simp only [Bool.and_eq_true, Bool.or_eq_true, decide_eq_true_eq, not_and, not_or] at hmany
    by_contra hno
    rw [not_or, Bool.not_eq_true, Nat.not_le] at hno
    refine hkept ⟨hno.2, tok, by simp [hone.toks], ?_, hmany hno.2⟩
    cases k with
    | file => exact Or.inl hone.kind
    | url => exact Or.inr hone.kind
    | _ => cases hno.1

end

/-- **Arguments are kept**, unless there are several for a field within a longer token. -/
theorem arguments_kept_iff (exec args : List Str) (ctx : EntryCtx) (gen : GenArgs)
    (h : genEntryArgs exec args ctx = .ok gen) :
    Kept exec args ctx gen ↔ ¬ (1 < args.length ∧ ∃ tok ∈ exec.tail, Embedded tok) :=
  ⟨fun hkept hlost => not_kept_of_embedded h hlost.1 hlost.2 hkept, kept_of_not_embedded h⟩

def myApp : EntryCtx := ⟨"My App".toList, "myicon".toList, "/x/my.desktop".toList⟩

theorem arguments_kept_two : Kept ["app".toList, "%f".toList] ["/a".toList, "/b".toList] myApp
    (.multi [["app".toList, "/a".toList], ["app".toList, "/b".toList]]) :=
  (arguments_kept_iff _ _ _ _ (by decide)).2 fun ⟨_, tok, ht, hembedded⟩ =>
    hembedded.2.1 (List.mem_singleton.1 ht)

/-- `--file=%f` with two files: neither is passed on. -/
theorem embedded_field_loses_arguments :
    genEntryArgs ["app".toList, "--file=%f".toList] ["/a".toList, "/b".toList] myApp =
        .ok (.single ["app".toList, "--file=%f".toList]) ∧
      ¬ Kept ["app".toList, "--file=%f".toList] ["/a".toList, "/b".toList] myApp
        (.single ["app".toList, "--file=%f".toList]) := by
  have h : genEntryArgs ["app".toList, "--file=%f".toList] ["/a".toList, "/b".toList] myApp =
      .ok (.single ["app".toList, "--file=%f".toList]) := by decide
  refine ⟨h, not_kept_of_embedded h (by decide) ⟨"--file=%f".toList, List.mem_singleton.2 rfl, ?_, ?_, ?_⟩⟩
  · exact Or.inl (by decide)
  · decide
  · decide

end Wsmr
