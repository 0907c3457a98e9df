import Wsmr.Comp.Resolve

/-!
# Arguments put together and classified (`src/comp.rs`)

An argument is a target, an entry's id or path, with an action behind a colon. `MainArg::parse` cuts at the first colon,
not at the one behind `.desktop`, so that it undoes the composition exactly for targets without colons
(`parse_compose_iff`).
-/

namespace Wsmr

open Text

/-- The id of an entry, or a path of one that is not in the home directory. -/
def IsTarget (e : Str) : Prop :=
  isEntryId e = true ∨
    '/' ∈ e ∧ ".desktop".toList <:+ e ∧ ¬ "~/".toList <+: e ∧ ¬ ".desktop:".toList <:+: e

def compose (e : Str) : Option Str → Str
  | none => e
  | some action => e ++ ':' :: action

/-- What was put together. -/
def composed (e : Str) (action : Option Str) : MainArg :=
  ⟨some (fileBasename e), action, none, if '/' ∈ e then some e else none⟩

theorem not_mem_entryId {e : Str} (h : isEntryId e = true) {c : Char} (hc : isAsciiAlphanumeric c = false)
    (hclass : c ∉ ['_', '.', '-']) : c ∉ e := by
  intro hmem
  have hkept := List.all_eq_true.1 (Bool.and_eq_true_iff.1 h).2 c hmem
  rw [hc, Bool.false_or, List.contains_iff_mem] at hkept
  exact hclass hkept

section
variable {host : Host} {e : Str} {action : Option Str}

theorem IsTarget.suffix (h : IsTarget e) : ".desktop".toList <:+ e := by
  rcases h with h | h
  · have hsuffix := (Bool.and_eq_true_iff.1 (Bool.and_eq_true_iff.1 h).1).1
    exact of_decide_eq_true hsuffix
  · exact h.2.1

/-- A target in a directory is a path as it is. -/
theorem IsTarget.normalize (h : IsTarget e) (hslash : '/' ∈ e) : normalizeUserPath host e = e := by
  have hhome : ¬ "~/".toList <+: e := by
    rcases h with h | h
    · exact absurd hslash (not_mem_entryId h (by decide) (by decide))
    · exact h.2.2.1
  unfold normalizeUserPath stripPrefix
  rw [if_neg hhome]

theorem isEntryArg_compose (h : IsTarget e) (action : Option Str) : isEntryArg (compose e action) = true := by
  cases action with
  | none => exact isEntryArg_iff.2 (Or.inl h.suffix)
  | some a =>
    have hlong : ".desktop:".toList = ".desktop".toList ++ [':'] := by decide
    obtain ⟨p, hp⟩ := h.suffix
    refine isEntryArg_iff.2 (Or.inr ⟨p, a, ?_⟩)
    rw [hlong, compose, ← hp]
    simp

theorem splitAction_compose (hcolon : ':' ∉ e) (haction : ∀ a ∈ action, isActionId a = true) :
    splitAction (compose e action) = .ok (e, action) := by
  cases action with
  | none => rw [compose, splitAction, splitOnce_eq_none hcolon]
  | some a =>
    have ha := haction a rfl
    have hne : a ≠ [] := by
      rintro rfl
      cases ha
    rw [compose, splitAction, splitOnce_append a hcolon]
    dsimp only
    rw [if_neg hne, if_pos ha]

theorem parse_compose (h : IsTarget e) (haction : ∀ a ∈ action, isActionId a = true) (hcolon : ':' ∉ e) :
    MainArg.parse host (compose e action) = .ok (composed e action) := by
  unfold MainArg.parse
  rw [if_pos (isEntryArg_compose h action), splitAction_compose hcolon haction]
  show (if e.contains '/' = true then _ else _) = _
  unfold composed
  by_cases hslash : '/' ∈ e
  · rw [if_pos (List.contains_iff_mem.2 hslash), if_pos hslash, h.normalize hslash]
    rfl
  · have hid : isEntryId e = true := h.resolve_right fun hpath => hslash hpath.1
    rw [if_neg fun hc => hslash (List.contains_iff_mem.1 hc), if_neg hslash, if_pos hid, fileBasename_of_not_mem hslash]
    rfl

theorem fst_of_splitAction {id rest : Str} {p : Str × Option Str} (hid : ':' ∉ id)
    (h : splitAction (id ++ ':' :: rest) = .ok p) : p.1 = id := by
  rw [splitAction, splitOnce_append rest hid] at h
  dsimp only at h
  split at h
  · rw [← Except.ok.inj h]
  · split at h
    · rw [← Except.ok.inj h]
    · cases h

/-- The path of an entry argument is what stands before the first colon. -/
theorem path_of_parse {id rest : Str} {main : MainArg} (hid : ':' ∉ id) (harg : isEntryArg (id ++ ':' :: rest) = true)
    (h : MainArg.parse host (id ++ ':' :: rest) = .ok main) :
    main.path = if '/' ∈ id then some (normalizeUserPath host id) else none := by
  unfold MainArg.parse at h
  rw [if_pos harg] at h
  cases hsplit : splitAction (id ++ ':' :: rest) with
  | error e =>
    rw [hsplit] at h
    cases h
  | ok p =>
    obtain ⟨id', action⟩ := p
    obtain rfl : id' = id := fst_of_splitAction hid hsplit
    rw [hsplit] at h
    dsimp only [bind, Except.bind] at h
    split at h
    · rename_i hslash
      cases h
      rw [if_pos (List.contains_iff_mem.1 hslash)]
    · rename_i hslash
      split at h
      · cases h
        rw [if_neg fun hmem => hslash (List.contains_iff_mem.2 hmem)]
      · cases h

/-- A target with a colon is cut in two. -/
theorem parse_compose_ne (h : IsTarget e) (hcolon : ':' ∈ e) :
    MainArg.parse host (compose e action) ≠ .ok (composed e action) := by
  intro hparse
  obtain ⟨id, tail, rfl, hid⟩ := List.eq_append_cons_of_mem hcolon
  obtain ⟨rest, hrest⟩ : ∃ rest, compose (id ++ ':' :: tail) action = id ++ ':' :: rest := by
    cases action with
    | none => exact ⟨tail, rfl⟩
    | some a => exact ⟨tail ++ ':' :: a, by rw [compose, List.append_assoc, List.cons_append]⟩
  have harg := isEntryArg_compose h action
  rw [hrest] at hparse harg
  have hpath := path_of_parse hid harg hparse
  have hslash : '/' ∈ id ++ ':' :: tail := by
    rcases h with h | h
    · exact absurd hcolon (not_mem_entryId h (by decide) (by decide))
    · exact h.1
  unfold composed at hpath
  rw [if_pos hslash] at hpath
  split at hpath
  · -- what comes before the colon is not the home directory either
    have hhome : ¬ "~/".toList <+: id := fun hp => by
      rcases h with h | h
      · exact absurd hslash (not_mem_entryId h (by decide) (by decide))
      · exact h.2.2.1 (hp.trans (List.prefix_append _ _))
    have hnorm : normalizeUserPath host id = id := by
      unfold normalizeUserPath stripPrefix
      rw [if_neg hhome]
    rw [hnorm] at hpath
    have hlen := congrArg List.length (Option.some.inj hpath)
    simp at hlen
  · cases hpath

end

/-- **Classification undoes composition** exactly for targets without a colon. -/
theorem parse_compose_iff (host : Host) {e : Str} {action : Option Str} (h : IsTarget e)
    (haction : ∀ a ∈ action, isActionId a = true) :
    MainArg.parse host (compose e action) = .ok ⟨some (fileBasename e), action, none, if '/' ∈ e then some e else none⟩ ↔
      ':' ∉ e :=
  ⟨fun hparse hcolon => parse_compose_ne h hcolon hparse, parse_compose h haction⟩

/-- A host with nothing on it. -/
def emptyHost : Host := ⟨fun _ => none, fun _ => none, fun _ => false, fun _ => none⟩

theorem isTarget_of_path {e : Str} (hslash : '/' ∈ e) (hsuffix : ".desktop".toList <:+ e)
    (hhome : ¬ "~/".toList <+: e)
    (hno : (splitFirst ".desktop:".toList e).isSome = false) : IsTarget e := by
  refine Or.inr ⟨hslash, hsuffix, hhome, fun hin => ?_⟩
  rw [← isSome_splitFirst (by decide), hno] at hin
  cases hin

theorem isTarget_apps : IsTarget "/apps/firefox.desktop".toList :=
  isTarget_of_path (by decide) (by decide) (by decide) (by decide)

theorem isTarget_colon : IsTarget "/a:b/foo.desktop".toList :=
  isTarget_of_path (by decide) (by decide) (by decide) (by decide)

theorem parse_compose_firefox :
    MainArg.parse emptyHost (compose "/apps/firefox.desktop".toList (some "new-window".toList)) =
      .ok ⟨some (fileBasename "/apps/firefox.desktop".toList), some "new-window".toList, none,
        if '/' ∈ "/apps/firefox.desktop".toList then some "/apps/firefox.desktop".toList else none⟩ :=
  (parse_compose_iff emptyHost isTarget_apps fun _ h => Option.some.inj h ▸ by decide).2 (by decide)

/-- The path of an entry below `/a:b` is refused, for what stands behind the first colon is no action. -/
theorem path_with_colon_refused :
    IsTarget "/a:b/foo.desktop".toList ∧
    MainArg.parse emptyHost (compose "/a:b/foo.desktop".toList none) =
      .error (.invalidArg "invalid Desktop Entry Action \"b/foo.desktop\"".toList) := by
  refine ⟨isTarget_colon, ?_⟩
  have harg : isEntryArg "/a:b/foo.desktop".toList = true := by decide
  have hsplit : splitAction "/a:b/foo.desktop".toList =
      .error (.invalidArg "invalid Desktop Entry Action \"b/foo.desktop\"".toList) := by decide
  rw [compose, MainArg.parse, if_pos harg, hsplit]
  rfl

end Wsmr
