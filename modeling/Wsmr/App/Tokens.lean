import Wsmr.App.Field

/-!
# The grammar of `Exec` (`tokenize_exec`)

A value is a sequence of arguments between runs of blanks; an argument is made of plain characters and quoted
segments. The original accepts such values and reads them as the grammar does, and it also accepts a value that
ends within a quoted segment (`tokenizeExec_iff`).
-/

namespace Wsmr

open Text

/-! ## The grammar -/

/-- The inside of a quoted segment, and what it stands for. -/
inductive Body : Str → Str → Prop
  | nil : Body [] []
  | plain {c : Char} {s t : Str} (hc : c ∉ ['"', '\\', '`', '$']) (h : Body s t) : Body (c :: s) (c :: t)
  | escape {c : Char} {s t : Str} (h : Body s t) : Body ('\\' :: c :: s) (c :: t)

/-- Plain characters and complete quoted segments. -/
inductive Argument : Str → Str → Prop
  | nil : Argument [] []
  | plain {c : Char} {s t : Str} (hw : isWhitespace c = false) (hq : c ≠ '"') (hr : isReserved c = false)
    (h : Argument s t) : Argument (c :: s) (c :: t)
  | quoted {b m s t : Str} (hb : Body b m) (h : Argument s t) : Argument ('"' :: b ++ '"' :: s) (m ++ t)

/-- Arguments, with a run of blanks after each but the last. -/
inductive Arguments : Str → List Str → Prop
  | last {s t : Str} (h : Argument s t) : Arguments s [t]
  | more {s t w r : Str} {ts : List Str} (h : Argument s t) (hw : w ≠ []) (hblank : ∀ c ∈ w, isWhitespace c = true)
    (hr : ∀ c ∈ r.head?, isWhitespace c = false) (hts : Arguments r ts) : Arguments (s ++ w ++ r) (t :: ts)

/-- The inside of a quoted segment that has no end; its last character may be a backslash. -/
def OpenBody (b : Str) : Prop := ∃ m, Body b m ∨ ∃ b', b = b' ++ ['\\'] ∧ Body b' m

/-- The value ends within a quoted segment, and is in order up to there. -/
def Unclosed (s : Str) : Prop := ∃ p b ts, s = p ++ '"' :: b ∧ Arguments p ts ∧ OpenBody b

/-! ## From the grammar to the original -/

def ExecLexer.start : ExecLexer := ⟨[], [], false, false, false⟩

def tokenizeFrom (s : ExecLexer) (v : Str) : Except Error ExecLexer := v.foldlM tokenizeStep s

theorem tokenizeFrom_cons (s : ExecLexer) (c : Char) (v : Str) :
    tokenizeFrom s (c :: v) = (tokenizeStep s c).bind fun s' => tokenizeFrom s' v := List.foldlM_cons

theorem tokenizeFrom_step {s s' : ExecLexer} {c : Char} (h : tokenizeStep s c = .ok s') (v : Str) :
    tokenizeFrom s (c :: v) = tokenizeFrom s' v := by
  rw [tokenizeFrom_cons, h]
  rfl

section
variable {cmd : List Str} {arg : Str} {sp : Bool}

/-! One character; outside of quotes, `inSpace` tells only whether blanks are skipped. -/

theorem step_quote : tokenizeStep ⟨cmd, arg, false, sp, false⟩ '"' = .ok ⟨cmd, arg, true, false, false⟩ := by
  cases sp <;> rfl

theorem step_close : tokenizeStep ⟨cmd, arg, true, false, false⟩ '"' = .ok ⟨cmd, arg, false, false, false⟩ := rfl

theorem step_backslash : tokenizeStep ⟨cmd, arg, true, false, false⟩ '\\' = .ok ⟨cmd, arg, true, false, true⟩ := rfl

theorem step_escaped (c : Char) :
    tokenizeStep ⟨cmd, arg, true, false, true⟩ c = .ok ⟨cmd, arg ++ [c], true, false, false⟩ := rfl

theorem step_inside {c : Char} (hc : c ∉ ['"', '\\', '`', '$']) :
    tokenizeStep ⟨cmd, arg, true, false, false⟩ c = .ok ⟨cmd, arg ++ [c], true, false, false⟩ := by
  simp only [List.mem_cons, List.not_mem_nil, or_false, not_or] at hc
  simp [tokenizeStep, hc]

theorem step_refused_inside {c : Char} (hc : c = '`' ∨ c = '$') :
    ∃ e, tokenizeStep ⟨cmd, arg, true, false, false⟩ c = .error e := by
  rcases hc with rfl | rfl
  · exact ⟨_, rfl⟩
  · exact ⟨_, rfl⟩

theorem step_plain {c : Char} (hw : isWhitespace c = false) (hq : c ≠ '"') (hr : isReserved c = false) :
    tokenizeStep ⟨cmd, arg, false, sp, false⟩ c = .ok ⟨cmd, arg ++ [c], false, false, false⟩ := by
  simp [tokenizeStep, hw, hq, hr]

theorem step_reserved {c : Char} (hw : isWhitespace c = false) (hq : c ≠ '"') (hr : isReserved c = true) :
    ∃ e, tokenizeStep ⟨cmd, arg, false, sp, false⟩ c = .error e := by
  simp [tokenizeStep, hw, hq, hr]

theorem step_blank {c : Char} (hw : isWhitespace c = true) :
    tokenizeStep ⟨cmd, arg, false, false, false⟩ c = .ok ⟨cmd ++ [arg], [], false, true, false⟩ := by
  have hq : c ≠ '"' := by
    rintro rfl
    revert hw
    decide
  simp [tokenizeStep, hw, hq]

theorem step_skip {c : Char} (hw : isWhitespace c = true) :
    tokenizeStep ⟨cmd, arg, false, true, false⟩ c = .ok ⟨cmd, arg, false, true, false⟩ := by
  simp [tokenizeStep, hw]

/-! A whole piece of the grammar, whatever comes after it. -/

theorem run_body {b m : Str} (h : Body b m) : ∀ {arg : Str} (v : Str),
    tokenizeFrom ⟨cmd, arg, true, false, false⟩ (b ++ v) = tokenizeFrom ⟨cmd, arg ++ m, true, false, false⟩ v := by
  induction h with
  | nil => simp
  | plain hc h ih =>
    intro arg v
    rw [List.cons_append, tokenizeFrom_step (step_inside hc), ih, List.append_assoc, List.singleton_append]
  | escape h ih =>
    intro arg v
    rw [List.cons_append, List.cons_append, tokenizeFrom_step step_backslash, tokenizeFrom_step (step_escaped _), ih,
      List.append_assoc, List.singleton_append]

theorem run_argument {s t : Str} (h : Argument s t) : ∀ {arg : Str} {sp : Bool} (v : Str),
    tokenizeFrom ⟨cmd, arg, false, sp, false⟩ (s ++ v) =
      tokenizeFrom ⟨cmd, arg ++ t, false, sp && s.isEmpty, false⟩ v := by
  induction h with
  | nil => simp
  | plain hw hq hr h ih =>
    intro arg sp v
    rw [List.cons_append, tokenizeFrom_step (step_plain hw hq hr), ih, List.append_assoc, List.singleton_append]
    simp
  | quoted hb h ih =>
    intro arg sp v
    rw [List.append_assoc, List.cons_append, List.cons_append, tokenizeFrom_step step_quote, run_body hb,
      tokenizeFrom_step step_close, ih, List.append_assoc]
    simp

theorem run_skip : ∀ {w : Str}, (∀ c ∈ w, isWhitespace c = true) → ∀ v,
    tokenizeFrom ⟨cmd, arg, false, true, false⟩ (w ++ v) = tokenizeFrom ⟨cmd, arg, false, true, false⟩ v
  | [], _, v => rfl
  | c :: w, hw, v => by
    rw [List.cons_append, tokenizeFrom_step (step_skip (hw c List.mem_cons_self))]
    exact run_skip (fun c hc => hw c (List.mem_cons_of_mem _ hc)) v

theorem run_blanks {w : Str} (hne : w ≠ []) (hw : ∀ c ∈ w, isWhitespace c = true) (v : Str) :
    tokenizeFrom ⟨cmd, arg, false, false, false⟩ (w ++ v) =
      tokenizeFrom ⟨cmd ++ [arg], [], false, true, false⟩ v := by
  obtain ⟨c, w, rfl⟩ := List.exists_cons_of_ne_nil hne
  rw [List.cons_append, tokenizeFrom_step (step_blank (hw c List.mem_cons_self))]
  exact run_skip (fun c hc => hw c (List.mem_cons_of_mem _ hc)) v

/-- **Arguments are read** as they are meant. -/
theorem run_arguments {v : Str} {ts : List Str} (h : Arguments v ts) : ∀ {cmd : List Str} {sp : Bool} (u : Str),
    (sp = true → ∀ c ∈ v.head?, isWhitespace c = false) →
      ∃ cmd' arg' sp', cmd' ++ [arg'] = cmd ++ ts ∧
        tokenizeFrom ⟨cmd, [], false, sp, false⟩ (v ++ u) = tokenizeFrom ⟨cmd', arg', false, sp', false⟩ u := by
  induction h with
  | @last s t h =>
    intro cmd sp u _
    exact ⟨cmd, t, _, rfl, run_argument h u⟩
  | @more s t w r ts h hne hw hr hts ih =>
    intro cmd sp u hsp
    have hspace : (sp && s.isEmpty) = false := by
      cases s with
      | cons c s => simp
      | nil =>
        obtain ⟨c, w, rfl⟩ := List.exists_cons_of_ne_nil hne
        cases sp with
        | false => rfl
        | true =>
          have hno := hsp rfl c rfl
          rw [hw c List.mem_cons_self] at hno
          cases hno
    obtain ⟨cmd', arg', sp', hcmd, hrun⟩ := @ih (cmd ++ [t]) true u fun _ => hr
    refine ⟨cmd', arg', sp', by simpa using hcmd, ?_⟩
    rw [List.append_assoc, List.append_assoc, run_argument h, hspace, run_blanks hne hw]
    exact hrun

theorem run_open {b : Str} (h : OpenBody b) (cmd : List Str) (arg : Str) :
    ∃ s, tokenizeFrom ⟨cmd, arg, true, false, false⟩ b = .ok s ∧ s.quoted = true := by
  obtain ⟨m, h | ⟨b', rfl, h⟩⟩ := h
  · rw [← List.append_nil b, run_body h]
    exact ⟨_, rfl, rfl⟩
  · rw [run_body h]
    exact ⟨_, rfl, rfl⟩

end

/-! ## From the original to the grammar -/

theorem OpenBody.plain {c : Char} {b : Str} (hc : c ∉ ['"', '\\', '`', '$']) (h : OpenBody b) : OpenBody (c :: b) := by
  obtain ⟨m, h | ⟨b', rfl, h⟩⟩ := h
  · exact ⟨c :: m, Or.inl (.plain hc h)⟩
  · exact ⟨c :: m, Or.inr ⟨c :: b', rfl, .plain hc h⟩⟩

theorem OpenBody.escape {c : Char} {b : Str} (h : OpenBody b) : OpenBody ('\\' :: c :: b) := by
  obtain ⟨m, h | ⟨b', rfl, h⟩⟩ := h
  · exact ⟨c :: m, Or.inl (.escape h)⟩
  · exact ⟨c :: m, Or.inr ⟨'\\' :: c :: b', rfl, .escape h⟩⟩

theorem Arguments.ne_nil {s : Str} {ts : List Str} (h : Arguments s ts) : ts ≠ [] := by cases h <;> simp

/-- Something in front of the first argument. -/
theorem Arguments.prepend {s₀ m s t : Str} {ts : List Str}
    (hs : ∀ {s t}, Argument s t → Argument (s₀ ++ s) (m ++ t)) (h : Arguments s (t :: ts)) :
    Arguments (s₀ ++ s) ((m ++ t) :: ts) := by
  cases h with
  | last h => exact .last (hs h)
  | more h hw hblank hr hts =>
    have hmore := Arguments.more (hs h) hw hblank hr hts
    simpa only [List.append_assoc] using hmore

theorem Unclosed.prepend {s₀ m s : Str} (hs : ∀ {s t}, Argument s t → Argument (s₀ ++ s) (m ++ t)) (h : Unclosed s) :
    Unclosed (s₀ ++ s) := by
  obtain ⟨p, b, ts, rfl, hp, hb⟩ := h
  obtain ⟨t, ts, rfl⟩ := List.exists_cons_of_ne_nil hp.ne_nil
  exact ⟨s₀ ++ p, b, (m ++ t) :: ts, (List.append_assoc _ _ _).symm, hp.prepend hs, hb⟩

/-- Blanks in front of everything. -/
theorem Unclosed.blanks {w s : Str} (hw : w ≠ []) (hblank : ∀ c ∈ w, isWhitespace c = true)
    (hs : ∀ c ∈ s.head?, isWhitespace c = false) (h : Unclosed s) : Unclosed (w ++ s) := by
  obtain ⟨p, b, ts, rfl, hp, hb⟩ := h
  refine ⟨w ++ p, b, [] :: ts, (List.append_assoc _ _ _).symm, ?_, hb⟩
  refine .more (s := []) .nil hw hblank (fun c hc => ?_) hp
  cases p with
  | nil => cases hc
  | cons d p => exact hs c hc

section
variable {cmd : List Str} {arg : Str} {s' : ExecLexer}

/-- What is read within quotes: the segment ends, or the value does. -/
theorem read_inside : ∀ {v : Str} {arg : Str}, tokenizeFrom ⟨cmd, arg, true, false, false⟩ v = .ok s' →
    (∃ b m r, v = b ++ '"' :: r ∧ Body b m ∧ tokenizeFrom ⟨cmd, arg ++ m, false, false, false⟩ r = .ok s') ∨
      OpenBody v ∧ s'.quoted = true
  | [], arg, h => Or.inr ⟨⟨[], Or.inl .nil⟩, by rw [← Except.ok.inj h]⟩
  | c :: v, arg, h => by
    by_cases hquote : c = '"'
    · subst c
      rw [tokenizeFrom_step step_close] at h
      exact Or.inl ⟨[], [], v, rfl, .nil, by rwa [List.append_nil]⟩
    by_cases hbackslash : c = '\\'
    · subst c
      rw [tokenizeFrom_step step_backslash] at h
      cases v with
      | nil => exact Or.inr ⟨⟨[], Or.inr ⟨[], rfl, .nil⟩⟩, by rw [← Except.ok.inj h]⟩
      | cons d v =>
        rw [tokenizeFrom_step (step_escaped d)] at h
        rcases read_inside h with ⟨b, m, r, rfl, hb, hr⟩ | ⟨hopen, hq⟩
        · refine Or.inl ⟨'\\' :: d :: b, d :: m, r, rfl, .escape hb, ?_⟩
          rwa [List.append_assoc] at hr
        · exact Or.inr ⟨hopen.escape, hq⟩
    by_cases hrefused : c = '`' ∨ c = '$'
    · obtain ⟨e, he⟩ := @step_refused_inside cmd arg c hrefused
      rw [tokenizeFrom_cons, he] at h
      cases h
    · have hc : c ∉ ['"', '\\', '`', '$'] := by
        simp only [List.mem_cons, List.not_mem_nil, or_false]
        tauto
      rw [tokenizeFrom_step (step_inside hc)] at h
      rcases read_inside h with ⟨b, m, r, rfl, hb, hr⟩ | ⟨hopen, hq⟩
      · refine Or.inl ⟨c :: b, c :: m, r, rfl, .plain hc hb, ?_⟩
        rwa [List.append_assoc] at hr
      · exact Or.inr ⟨hopen.plain hc, hq⟩

/-- What is read outside of quotes. -/
def ReadTo (v : Str) (cmd : List Str) (arg : Str) (s' : ExecLexer) : Prop :=
  s'.quoted = false ∧ (∃ t ts, Arguments v (t :: ts) ∧ s'.cmd ++ [s'.arg] = cmd ++ (arg ++ t) :: ts) ∨
    s'.quoted = true ∧ Unclosed v

theorem ReadTo.prepend {s₀ m s : Str} (hs : ∀ {s t}, Argument s t → Argument (s₀ ++ s) (m ++ t))
    (h : ReadTo s cmd (arg ++ m) s') : ReadTo (s₀ ++ s) cmd arg s' := by
  refine h.imp (fun ⟨hq, t, ts, hts, hcmd⟩ => ⟨hq, m ++ t, ts, hts.prepend hs, ?_⟩)
    fun ⟨hq, hopen⟩ => ⟨hq, hopen.prepend hs⟩
  rw [hcmd, List.append_assoc]

theorem ReadTo.blanks {w s : Str} (hw : w ≠ []) (hblank : ∀ c ∈ w, isWhitespace c = true)
    (hs : ∀ c ∈ s.head?, isWhitespace c = false) (h : ReadTo s (cmd ++ [arg]) [] s') : ReadTo (w ++ s) cmd arg s' := by
  refine h.imp (fun ⟨hq, t, ts, hts, hcmd⟩ => ⟨hq, [], t :: ts, ?_, ?_⟩)
    fun ⟨hq, hopen⟩ => ⟨hq, hopen.blanks hw hblank hs⟩
  · exact .more (s := []) .nil hw hblank hs hts
  · simpa using hcmd

/-- **What the original accepts**, by induction on the length of the value: a quoted segment is read at once. -/
theorem read_outside : ∀ (n : Nat) {v : Str} {cmd : List Str} {arg : Str} {sp : Bool}, v.length ≤ n →
    (sp = true → ∀ c ∈ v.head?, isWhitespace c = false) →
      tokenizeFrom ⟨cmd, arg, false, sp, false⟩ v = .ok s' → ReadTo v cmd arg s'
  | _, [], cmd, arg, sp, _, _, h => by
    refine Or.inl ⟨by rw [← Except.ok.inj h], [], [], .last .nil, ?_⟩
    rw [← Except.ok.inj h, List.append_nil]
  | n + 1, c :: v, cmd, arg, sp, hn, hsp, h => by
    have hlen : v.length ≤ n := by simpa using hn
    by_cases hquote : c = '"'
    · subst c
      rw [tokenizeFrom_step step_quote] at h
      rcases read_inside h with ⟨b, m, r, rfl, hb, hr⟩ | ⟨hopen, hq⟩
      · have hrest := @read_outside n r cmd (arg ++ m) false (by simp at hlen; omega) nofun hr
        have hread := @ReadTo.prepend cmd arg s' ('"' :: b ++ ['"']) m r (fun h => by
          rw [List.append_assoc]
          exact .quoted hb h) hrest
        rwa [List.append_assoc] at hread
      · exact Or.inr ⟨hq, [], v, [[]], rfl, .last .nil, hopen⟩
    by_cases hblank : isWhitespace c = true
    · cases sp with
      | true =>
        rw [hsp rfl c rfl] at hblank
        cases hblank
      | false =>
        have hv : c :: v = (c :: v.takeWhile isWhitespace) ++ v.dropWhile isWhitespace := by simp
        have hw : ∀ d ∈ c :: v.takeWhile isWhitespace, isWhitespace d = true := by
          intro d hd
          rcases List.mem_cons.1 hd with rfl | hd
          · exact hblank
          · exact List.mem_takeWhile_imp hd
        have hhead : ∀ d ∈ (v.dropWhile isWhitespace).head?, isWhitespace d = false := head?_dropWhile v
        rw [hv, run_blanks (List.cons_ne_nil _ _) hw] at h
        rw [hv]
        refine ReadTo.blanks (List.cons_ne_nil _ _) hw hhead (read_outside n ?_ (fun _ => hhead) h)
        exact (List.dropWhile_sublist _).length_le.trans hlen
    rw [Bool.not_eq_true] at hblank
    cases hreserved : isReserved c with
    | true =>
      obtain ⟨e, he⟩ := @step_reserved cmd arg sp c hblank hquote hreserved
      rw [tokenizeFrom_cons, he] at h
      cases h
    | false =>
      rw [tokenizeFrom_step (step_plain hblank hquote hreserved)] at h
      exact @ReadTo.prepend cmd arg s' [c] [c] v (.plain hblank hquote hreserved)
        (@read_outside n v cmd (arg ++ [c]) false hlen nofun h)

end

/-! ## The whole value -/

theorem tokenizeExec_eq (v : Str) :
    tokenizeExec v = (tokenizeFrom .start (trim v)).bind fun s => .ok (s.cmd ++ [s.arg]) := rfl

theorem final_of_arguments {v : Str} {ts : List Str} (h : Arguments v ts) :
    ∃ s, tokenizeFrom .start v = .ok s ∧ s.quoted = false ∧ s.cmd ++ [s.arg] = ts := by
  obtain ⟨cmd, arg, sp, hcmd, hrun⟩ := @run_arguments v ts h [] false [] nofun
  rw [List.append_nil] at hrun
  exact ⟨_, hrun, rfl, hcmd⟩

theorem final_of_unclosed {v : Str} (h : Unclosed v) : ∃ s, tokenizeFrom .start v = .ok s ∧ s.quoted = true := by
  obtain ⟨p, b, ts, rfl, hp, hb⟩ := h
  obtain ⟨cmd, arg, sp, -, hrun⟩ := @run_arguments p ts hp [] false ('"' :: b) nofun
  rw [show ExecLexer.start = ⟨[], [], false, false, false⟩ from rfl, hrun, tokenizeFrom_step step_quote]
  exact run_open hb cmd arg

/-- A value that ends within quotes is not in the grammar, and it is accepted. -/
theorem not_arguments_of_unclosed {v : Str} (h : Unclosed v) (ts : List Str) : ¬ Arguments v ts := by
  intro hts
  obtain ⟨s, hs, hq⟩ := final_of_unclosed h
  obtain ⟨s', hs', hq', -⟩ := final_of_arguments hts
  rw [hs] at hs'
  rw [Except.ok.inj hs', hq'] at hq
  cases hq

theorem accepted_of_unclosed {v : Str} (h : Unclosed (trim v)) : ∃ ts, tokenizeExec v = .ok ts := by
  obtain ⟨s, hs, -⟩ := final_of_unclosed h
  exact ⟨s.cmd ++ [s.arg], by rw [tokenizeExec_eq, hs]; rfl⟩

theorem tokenizeExec_of_arguments {v : Str} {ts : List Str} (h : Arguments (trim v) ts) : tokenizeExec v = .ok ts := by
  obtain ⟨s, hs, -, hts⟩ := final_of_arguments h
  rw [tokenizeExec_eq, hs, ← hts]
  rfl

/-- What is accepted is in the grammar or ends within quotes. -/
theorem arguments_of_tokenizeExec {v : Str} {ts : List Str} (h : tokenizeExec v = .ok ts) :
    Arguments (trim v) ts ∨ Unclosed (trim v) := by
  rw [tokenizeExec_eq] at h
  cases hs : tokenizeFrom .start (trim v) with
  | error e =>
    rw [hs] at h
    cases h
  | ok s =>
    rw [hs] at h
    have hcmd : s.cmd ++ [s.arg] = ts := Except.ok.inj h
    refine (read_outside _ (Nat.le_refl _) (fun _ => head?_trim v) hs).imp (fun ⟨_, t, ts', hts, heq⟩ => ?_)
      fun hopen => hopen.2
    rw [hcmd] at heq
    exact heq ▸ hts

/-- **`tokenize_exec` accepts exactly its grammar**, unless the value ends within a quoted segment. -/
theorem tokenizeExec_iff (v : Str) :
    (∀ ts, tokenizeExec v = .ok ts ↔ Arguments (trim v) ts) ↔ ¬ Unclosed (trim v) := by
  constructor
  · intro hgrammar hopen
    obtain ⟨ts, hts⟩ := accepted_of_unclosed hopen
    exact not_arguments_of_unclosed hopen ts ((hgrammar ts).1 hts)
  · exact fun hclosed ts => ⟨fun h => (arguments_of_tokenizeExec h).resolve_right hclosed, tokenizeExec_of_arguments⟩

/-- The second quote is missing. -/
theorem unclosed_accepted : tokenizeExec "\"a b".toList = .ok ["a b".toList] ∧
    ¬ Arguments (trim "\"a b".toList) ["a b".toList] := by
  refine ⟨by decide, not_arguments_of_unclosed ⟨[], "a b".toList, [[]], by decide, .last .nil, ?_⟩ _⟩
  exact ⟨"a b".toList, Or.inl (.plain (by decide) (.plain (by decide) (.plain (by decide) .nil)))⟩

end Wsmr
