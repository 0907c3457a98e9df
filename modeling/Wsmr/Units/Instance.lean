import Wsmr.Comp.Resolve
import Wsmr.Units.Templates
import Wsmr.Units.Unescape

/-!
# Instances of the units (`src/session/stop.rs`, `src/units/templates.rs`)

The unit string of a compositor is the instance in the names of its units. systemd unescapes it for `%I`, which is the
compositor's id again.
-/

namespace Wsmr

open Text

/-- `compositor_unit_name` -/
def compositorUnitName (id : Str) : Str := "wayland-wm@".toList ++ simpleSystemdEscape id false ++ ".service".toList

/-- The name of an instance of a template, whose own name has nothing after the `@`. -/
def instantiate (template inst : Str) : Str :=
  match splitOnce '@' template with
  | some (p, suffix) => p ++ '@' :: inst ++ suffix
  | none => template

/-- systemd's instance: what is between the first `@` and the last `.` of a name. -/
def instanceOf (name : Str) : Option Str :=
  (splitOnce '@' name).map fun p => (p.2.reverse.dropWhile (· ≠ '.')).tail.reverse

theorem dropLast_dot {inst ext : Str} (h : '.' ∉ ext) :
    ((inst ++ '.' :: ext).reverse.dropWhile (· ≠ '.')).tail.reverse = inst := by
  have hext : ∀ c ∈ ext.reverse, decide (c ≠ '.') = true := fun c hc => by
    rw [decide_eq_true_eq]
    rintro rfl
    exact h (List.mem_reverse.1 hc)
  rw [List.reverse_append, List.reverse_cons, List.append_assoc, List.dropWhile_append_of_pos hext,
    List.singleton_append, List.dropWhile_cons_of_neg (by simp), List.tail_cons, List.reverse_reverse]

theorem instanceOf_append {p inst ext : Str} (hp : '@' ∉ p) (hext : '.' ∉ ext) :
    instanceOf (p ++ '@' :: inst ++ '.' :: ext) = some inst := by
  unfold instanceOf
  rw [List.append_assoc, List.cons_append, splitOnce_append _ hp, Option.map_some, dropLast_dot hext]

/-- The templates of `GRAPH` end in one extension after the `@`. -/
theorem suffix_of_graph : ∀ unit ∈ graph, ∀ p suffix, splitOnce '@' unit.name = some (p, suffix) →
    ∃ ext, suffix = '.' :: ext ∧ '.' ∉ ext := by
  have hall : ∀ name ∈ graph.map UnitTemplate.name, ((splitOnce '@' name).all fun p =>
      p.2.head? = some '.' && !p.2.tail.contains '.') = true := by
    unfold graph
    simp only [List.map_cons, List.map_nil]
    repeat rw [String.toList_ofList]
    decide
  intro unit hunit p suffix hsplit
  have h := hall unit.name (List.mem_map_of_mem hunit)
  rw [hsplit, Option.all_some, Bool.and_eq_true, decide_eq_true_eq, Bool.not_eq_true', List.contains_eq_mem,
    decide_eq_false_iff_not] at h
  obtain ⟨ext, rfl⟩ := List.head?_eq_some_iff.1 h.1
  exact ⟨ext, rfl, h.2⟩

theorem instanceOf_instantiate {unit : UnitTemplate} (hunit : unit ∈ graph) (hat : '@' ∈ unit.name) (inst : Str) :
    instanceOf (instantiate unit.name inst) = some inst := by
  unfold instantiate
  cases hsplit : splitOnce '@' unit.name with
  | none => exact absurd hat (not_mem_of_splitOnce_eq_none hsplit)
  | some q =>
    obtain ⟨p, suffix⟩ := q
    obtain ⟨ext, rfl, hext⟩ := suffix_of_graph unit hunit p suffix hsplit
    exact instanceOf_append (splitOnce_eq_some hsplit).2 hext

theorem idUnitString_of_resolve {host : Host} {input : ResolveInput} {comp : CompGlobals}
    (h : resolve host input = .ok comp) : comp.idUnitString = simpleSystemdEscape comp.id false := by
  obtain ⟨m, rfl⟩ := compOf_of_resolve h
  rfl

/-- The unit that is started and stopped is an instance of a template of `GRAPH`. -/
theorem compositorUnitName_eq (id : Str) :
    ∃ unit ∈ graph, '@' ∈ unit.name ∧
      compositorUnitName id = instantiate unit.name (simpleSystemdEscape id false) := by
  have hmem : "wayland-wm@.service".toList ∈ graph.map UnitTemplate.name := by
    unfold graph
    simp only [List.map_cons, List.map_nil, List.mem_cons, true_or, or_true]
  obtain ⟨unit, hunit, hname⟩ := List.mem_map.1 hmem
  have hsplit : splitOnce '@' "wayland-wm@.service".toList = some ("wayland-wm".toList, ".service".toList) := by
    repeat rw [String.toList_ofList]
    decide
  refine ⟨unit, hunit, ?_, ?_⟩
  · rw [hname, (splitOnce_eq_some hsplit).1]
    exact List.mem_append_right _ List.mem_cons_self
  · unfold instantiate
    rw [hname, hsplit]
    rfl

/-- `%I` of an instance of a template is what was escaped. -/
theorem unescape_instanceOf {unit : UnitTemplate} (hunit : unit ∈ graph) (hat : '@' ∈ unit.name) (s : Str) :
    (instanceOf (instantiate unit.name (simpleSystemdEscape s false))).map unescape = some (utf8 s) := by
  rw [instanceOf_instantiate hunit hat, Option.map_some, unescape_escape]

theorem unescape_instanceOf_compositorUnitName (id : Str) :
    (instanceOf (compositorUnitName id)).map unescape = some (utf8 id) := by
  obtain ⟨unit, hunit, hat, hname⟩ := compositorUnitName_eq id
  rw [hname, unescape_instanceOf hunit hat]

theorem compositorUnitName_inj {s t : Str} (h : compositorUnitName s = compositorUnitName t) : s = t := by
  have hread := unescape_instanceOf_compositorUnitName s
  rw [h, unescape_instanceOf_compositorUnitName] at hread
  exact utf8_injective (Option.some.inj hread.symm)

/-- **Unit strings are reversible**: systemd reads back the bytes of any text, so that no two texts share an instance
and `%I` in every unit that is generated is the id of the compositor. -/
theorem unit_strings_reversible :
    (∀ (s : Str) (start : Bool), unescape (simpleSystemdEscape s start) = utf8 s ∧
      ∀ c ∈ simpleSystemdEscape s start, isAsciiAlphanumeric c = true ∨ c ∈ [':', '_', '.', '-', '\\']) ∧
    (∀ s : Str, (simpleSystemdEscape s true).head? ≠ some '.') ∧
    (∀ (s t : Str) (start start' : Bool), simpleSystemdEscape s start = simpleSystemdEscape t start' → s = t) ∧
    (∀ s t : Str, compositorUnitName s = compositorUnitName t → s = t) ∧
    (∀ id : Str, (instanceOf (compositorUnitName id)).map unescape = some (utf8 id)) ∧
    ∀ (host : Host) (input : ResolveInput) (comp : CompGlobals), resolve host input = .ok comp →
      ∀ unit ∈ graph, '@' ∈ unit.name →
        (instanceOf (instantiate unit.name comp.idUnitString)).map unescape = some (utf8 comp.id) := by
  refine ⟨fun s start => ⟨unescape_escape s start, fun c hc => ?_⟩, head_escape_ne_dot,
    fun s t start start' h => escape_inj h, fun s t h => compositorUnitName_inj h,
    unescape_instanceOf_compositorUnitName, ?_⟩
  · exact of_isEscaped (isEscaped_of_mem hc)
  · intro host input comp h unit hunit hat
    rw [idUnitString_of_resolve h]
    exact unescape_instanceOf hunit hat comp.id

end Wsmr
