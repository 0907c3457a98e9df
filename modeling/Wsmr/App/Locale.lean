import Wsmr.App.Entry
import Wsmr.Lib.Dedup

/-!
# Locales (`src/app/entry.rs`)

The name of a locale is `lang_COUNTRY.ENCODING@MODIFIER`. `locale_variants` cuts the codeset off at the first `.`, and
with it the modifier, that stands behind it: the variants of a name with a codeset have no modifier
(`localeVariants_eq`).
-/

namespace Wsmr

open Text Std

/-- A part of a locale's name. -/
structure LocalePart (s : Str) : Prop where
  ne_nil : s ≠ []
  not_mem : ∀ c ∈ ['_', '.', '@', ':'], c ∉ s

/-- A part that is left out, or stands behind its separator. -/
def suffixed (sep : Char) (part : Option Str) : Str := part.elim [] (sep :: ·)

/-- `l[_c][.e][@m]` -/
def localeName (l : Str) (c e m : Option Str) : Str := l ++ suffixed '_' c ++ suffixed '.' e ++ suffixed '@' m

/-- `l_c@m`, `l_c`, `l@m` and `l`, as far as the parts are there. -/
def localeChain (l : Str) (c m : Option Str) : List Str :=
  (c.toList.flatMap fun c => (m.toList.map fun m => l ++ '_' :: c ++ '@' :: m) ++ [l ++ '_' :: c]) ++
    (m.toList.map fun m => l ++ '@' :: m) ++ [l]

theorem not_mem_suffixed {sep x : Char} {part : Option Str} (hpart : ∀ s ∈ part, x ∉ s) (hx : x ≠ sep) :
    x ∉ suffixed sep part := by
  cases part with
  | none => exact List.not_mem_nil
  | some s =>
    intro hmem
    rcases List.mem_cons.1 hmem with he | hmem
    · exact hx he
    · exact hpart s rfl hmem

/-- The first piece of a text that is split is what stands before the separator. -/
theorem headD_splitOn {sep : Char} {s : Str} (h : sep ∉ s) (part : Option Str) (d : Str) :
    ((s ++ suffixed sep part).splitOn sep).headD d = s := by
  cases part with
  | none =>
    rw [suffixed, Option.elim_none, List.append_nil, List.splitOn_eq_singleton h]
    rfl
  | some t =>
    rw [suffixed, Option.elim_some, List.splitOn_append_cons_self_of_not_mem h]
    rfl

/-- The loop without its splits. -/
theorem localeVariants_of_split {loc base lang : Str} {m : Option Str}
    (hcodeset : (loc.splitOn '.').headD loc = base ++ suffixed '@' m) (hbase : '@' ∉ base)
    (hlang : (base.splitOn '_').headD base = lang) :
    localeVariants loc = (m.map fun m => base ++ '@' :: m).toList ++ [base] ++
      if lang ≠ base then (m.map fun m => lang ++ '@' :: m).toList ++ [lang] else [] := by
  unfold localeVariants
  rw [hcodeset]
  cases m with
  | none =>
    rw [suffixed, Option.elim_none, List.append_nil]
    dsimp only
    rw [splitOnce_eq_none hbase]
    dsimp only
    rw [hlang]
  | some t =>
    rw [suffixed, Option.elim_some]
    dsimp only
    rw [splitOnce_append t hbase]
    dsimp only
    rw [hlang]

section
variable {l : Str} {c e m : Option Str} (hl : LocalePart l) (hc : ∀ s ∈ c, LocalePart s) (hm : ∀ s ∈ m, LocalePart s)

include hl hc in
theorem not_mem_base {x : Char} (hx : x ∈ ['.', '@', ':']) : x ∉ l ++ suffixed '_' c := by
  have hpart : ∀ {s}, LocalePart s → x ∉ s := fun hs => hs.not_mem x (List.mem_cons_of_mem _ hx)
  have hne : x ≠ '_' := by
    rintro rfl
    exact absurd hx (by decide)
  intro hmem
  rcases List.mem_append.1 hmem with hmem | hmem
  · exact hpart hl hmem
  · exact not_mem_suffixed (fun s hs => hpart (hc s hs)) hne hmem

include hl hc hm in
/-- The codeset is cut off with what stands behind it. -/
theorem headD_splitOn_localeName : ((localeName l c e m).splitOn '.').headD (localeName l c e m) =
    l ++ suffixed '_' c ++ suffixed '@' (if e = none then m else none) := by
  have hdot : '.' ∉ l ++ suffixed '_' c := not_mem_base hl hc (by decide)
  cases e with
  | none =>
    have hmod : '.' ∉ suffixed '@' m := not_mem_suffixed (fun s hs => (hm s hs).not_mem _ (by decide)) (by decide)
    have hname : localeName l c none m = l ++ suffixed '_' c ++ suffixed '@' m := by
      rw [localeName, suffixed, suffixed, suffixed, Option.elim_none, List.append_nil]
    rw [if_pos rfl, hname, List.splitOn_eq_singleton (List.mem_append.not.2 (not_or.2 ⟨hdot, hmod⟩))]
    rfl
  | some t =>
    have hname : localeName l c (some t) m = l ++ suffixed '_' c ++ suffixed '.' (some (t ++ suffixed '@' m)) := by
      simp [localeName, suffixed]
    have hnone : suffixed '@' none = [] := rfl
    rw [if_neg (Option.some_ne_none t), hname, headD_splitOn hdot, hnone, List.append_nil]

include hl hc hm in
/-- **The variants of a locale**: the modifier is lost when there is a codeset. -/
theorem localeVariants_eq : localeVariants (localeName l c e m) = localeChain l c (if e = none then m else none) := by
  have hlang := headD_splitOn (hl.not_mem '_' (by decide)) c (l ++ suffixed '_' c)
  rw [localeVariants_of_split (headD_splitOn_localeName hl hc hm) (not_mem_base hl hc (by decide)) hlang]
  generalize (if e = none then m else none) = m
  cases c with
  | none =>
    have hbase : l ++ suffixed '_' none = l := List.append_nil l
    rw [hbase, if_neg (not_not_intro rfl)]
    cases m <;> rfl
  | some t =>
    have hne : l ≠ l ++ suffixed '_' (some t) := fun h => by
      have hlen := congrArg List.length h
      simp [suffixed] at hlen
    rw [if_pos hne]
    cases m <;> simp [localeChain, suffixed]

include hl hc hm in
theorem localeVariants_eq_iff : localeVariants (localeName l c e m) = localeChain l c m ↔ e = none ∨ m = none := by
  rw [localeVariants_eq hl hc hm]
  constructor
  · intro h
    by_contra hboth
    obtain ⟨hcode, hmod⟩ := not_or.1 hboth
    obtain ⟨t, rfl⟩ := Option.ne_none_iff_exists'.1 hmod
    rw [if_neg hcode] at h
    have hlen := congrArg List.length h
    cases c <;> simp [localeChain] at hlen
  · rintro (rfl | rfl)
    · rw [if_pos rfl]
    · rw [ite_self]

end

theorem nodup_localeChain (l : Str) (c m : Option Str) : (localeChain l c m).Nodup := by
  cases c <;> cases m <;> simp [localeChain]

/-! ## What is looked up -/

/-- The variables that name the locale. -/
def Located (host : Host) (name : Str) : Prop :=
  ["LANGUAGE".toList, "LC_ALL".toList, "LC_MESSAGES".toList, "LANG".toList].findSome? host.nonEmptyVar = some name

theorem localeVariantChain_of_located {host : Host} {name : Str} (h : Located host name) (hne : name ≠ [])
    (hcolon : ':' ∉ name) : localeVariantChain host = (localeVariants name).eraseDups := by
  have hcandidates : localeCandidates host = [name] := by
    unfold localeCandidates
    rw [h]
    dsimp only
    rw [List.splitOn_eq_singleton hcolon]
    simp [hne]
  unfold localeVariantChain
  rw [hcandidates, List.foldl_cons, List.foldl_nil, Dedup.foldl_eq_eraseDups]

/-- The first translation of a chain that is there, or else the text that is not localized. -/
def preferred (chain : List Str) (e : DesktopEntry) (key : Str) (action : Option Str) : Option Str :=
  (e.group action).bind fun g =>
    ((chain.findSome? fun cand => g[key ++ "[".toList ++ cand ++ "]".toList]?).orElse fun _ => g[key]?).map expandStr

theorem getLocalized_eq (host : Host) (e : DesktopEntry) (key : Str) (action : Option Str) :
    e.getLocalized host key action = preferred (localeVariantChain host) e key action := rfl

/-- **Locale fallback** is as specified exactly when the locale has no codeset or no modifier. -/
theorem locale_fallback_iff {l : Str} {c e m : Option Str} (hl : LocalePart l) (hc : ∀ s ∈ c, LocalePart s)
    (he : ∀ s ∈ e, LocalePart s) (hm : ∀ s ∈ m, LocalePart s) :
    (localeVariants (localeName l c e m) = localeChain l c m ∧
      ∀ host, Located host (localeName l c e m) → ∀ entry key action,
        DesktopEntry.getLocalized host entry key action = preferred (localeChain l c m) entry key action) ↔
    e = none ∨ m = none := by
  rw [← localeVariants_eq_iff hl hc hm]
  refine ⟨And.left, fun h => ⟨h, fun host hhost entry key action => ?_⟩⟩
  have hne : localeName l c e m ≠ [] := by
    unfold localeName
    simp [hl.ne_nil]
  have hcolon : ':' ∉ localeName l c e m := by
    intro hmem
    rcases List.mem_append.1 hmem with hmem | hmem
    · rcases List.mem_append.1 hmem with hmem | hmem
      · exact not_mem_base hl hc (by decide) hmem
      · exact not_mem_suffixed (fun s hs => (he s hs).not_mem _ (by decide)) (by decide) hmem
    · exact not_mem_suffixed (fun s hs => (hm s hs).not_mem _ (by decide)) (by decide) hmem
  rw [getLocalized_eq, localeVariantChain_of_located hhost hne hcolon, h,
    Dedup.eraseDups_of_nodup (nodup_localeChain l c m)]

theorem localePart_de : LocalePart "de".toList := ⟨by decide, by simp⟩
theorem localePart_DE : LocalePart "DE".toList := ⟨by decide, by simp⟩
theorem localePart_euro : LocalePart "euro".toList := ⟨by decide, by simp⟩

theorem locale_fallback_de_euro :
    let name := localeName "de".toList (some "DE".toList) none (some "euro".toList)
    let chain := localeChain "de".toList (some "DE".toList) (some "euro".toList)
    localeVariants name = chain ∧ ∀ host, Located host name → ∀ entry key action,
      DesktopEntry.getLocalized host entry key action = preferred chain entry key action :=
  (locale_fallback_iff localePart_de (fun _ h => Option.some.inj h ▸ localePart_DE) (fun _ h => by cases h)
    fun _ h => Option.some.inj h ▸ localePart_euro).2 (Or.inl rfl)

/-- `de_DE.UTF-8@euro` has lost its modifier. -/
theorem modifier_lost :
    let name := localeName "de".toList (some "DE".toList) (some "UTF-8".toList) (some "euro".toList)
    name = "de_DE.UTF-8@euro".toList ∧ localeVariants name = ["de_DE".toList, "de".toList] ∧
    localeVariants name ≠ localeChain "de".toList (some "DE".toList) (some "euro".toList) := by decide

end Wsmr
