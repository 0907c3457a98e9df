import Wsmr.Env.Files
import Wsmr.Error

/-!
# The loader's output (`src/env/dump.rs`)

* `parseShellDump_records` — messages and environment are read back, whatever the messages and the values are.
-/

namespace Wsmr

open Text

structure ShellDump where
  messages : Str
  env : Env

/-- Messages, the mark, then the NUL-separated environment. -/
def parseShellDump (stdout mark : Str) : Except Error ShellDump :=
  match splitFirst mark stdout with
  | none => .error (.resolve ("env output mark \"".toList ++ mark ++ "\" not found in shell output".toList))
  | some (messages, after) => .ok ⟨messages, parseEnvNul (trimEndMatches '\x00' after)⟩

/-- The loader can only report kept names. -/
theorem keepName_of_parseShellDump {stdout mark : Str} {d : ShellDump} (h : parseShellDump stdout mark = .ok d)
    {k v : Str} (hk : d.env[k]? = some v) : keepName k = true := by
  unfold parseShellDump at h
  split at h
  · cases h
  · obtain rfl := Except.ok.inj h
    exact keepName_of_parseEnvNul hk

/-! ## What `env -0` prints -/

/-- Each record with a NUL after it. -/
def envRecords (records : List (Str × Str)) : Str := records.flatMap fun p => assignment p ++ ['\x00']

theorem parseEnvNul_append_nul (data : Str) : parseEnvNul (data ++ ['\x00']) = parseEnvNul data := by
  unfold parseEnvNul
  rw [List.splitOn_append_cons_self, List.splitOn_nil, List.filterMap_append]
  exact congrArg _ (List.append_nil _)

theorem parseEnvNul_append_replicate (data : Str) :
    ∀ n, parseEnvNul (data ++ List.replicate n '\x00') = parseEnvNul data
  | 0 => by rw [List.replicate_zero, List.append_nil]
  | n + 1 => by
    rw [List.replicate_succ', ← List.append_assoc, parseEnvNul_append_nul, parseEnvNul_append_replicate data n]

/-- The NULs at the end say nothing. -/
theorem parseEnvNul_trimEndMatches (data : Str) : parseEnvNul (trimEndMatches '\x00' data) = parseEnvNul data := by
  obtain ⟨n, hn⟩ := exists_trimEndMatches_append '\x00' data
  conv_rhs => rw [hn, parseEnvNul_append_replicate]

theorem parseRecord_of_name {p : Str × Str} (h : '=' ∉ p.1) :
    parseRecord (assignment p) = if keepName p.1 then some p else none := by
  obtain ⟨k, v⟩ := p
  have hne : k ++ '=' :: v ≠ [] := List.append_ne_nil_of_right_ne_nil k (List.cons_ne_nil _ v)
  simp only [parseRecord, assignment, if_neg hne, splitOnce_append v h]

theorem parseEnvNul_envRecords {records : List (Str × Str)}
    (h : ∀ p ∈ records, '=' ∉ p.1 ∧ '\x00' ∉ p.1 ∧ '\x00' ∉ p.2) :
    parseEnvNul (envRecords records) =
      (records.filter fun p => keepName p.1).foldl (fun map p => map.insert p.1 p.2) ∅ := by
  have hnul : ∀ l ∈ records.map assignment, '\x00' ∉ l := fun l hl => by
    obtain ⟨p, hp, rfl⟩ := List.mem_map.1 hl
    simp [assignment, (h p hp).2.1, (h p hp).2.2]
  have hsplit := splitOn_terminated hnul
  rw [List.flatMap_map] at hsplit
  have hrecords : records.filterMap (parseRecord ∘ assignment) = records.filter fun p => keepName p.1 := by
    rw [← List.filterMap_eq_filter]
    exact List.filterMap_congr fun p hp => by
      rw [Function.comp_apply, parseRecord_of_name (h p hp).1]
      simp [Option.guard]
  unfold parseEnvNul envRecords
  rw [hsplit, List.filterMap_append, List.filterMap_map, hrecords]
  exact congrArg _ (List.append_nil _)

/-- **The loader's output**: the messages are what stands before the first mark, the environment is the last value of
every kept name, and there is an error if there is no mark. -/
theorem parseShellDump_records :
    (∀ (m k : Str) (records : List (Str × Str)), k ≠ [] →
      (∀ p s, m ++ k = p ++ k ++ s → m.length ≤ p.length) →
      (∀ p ∈ records, '=' ∉ p.1 ∧ '\x00' ∉ p.1 ∧ '\x00' ∉ p.2) →
      ∃ d, parseShellDump (m ++ k ++ envRecords records) k = .ok d ∧ d.messages = m ∧
        ∀ name, d.env[name]? = if keepName name then records.reverse.lookup name else none) ∧
    ∀ out k : Str, ¬ k <:+: out → ∃ e, parseShellDump out k = .error e := by
  refine ⟨fun m k records hk hfirst hrecords => ?_, fun out k hk => ?_⟩
  · refine ⟨⟨m, parseEnvNul (envRecords records)⟩, ?_, rfl, fun name => ?_⟩
    · unfold parseShellDump
      rw [splitFirst_append hk _ hfirst]
      dsimp only
      rw [parseEnvNul_trimEndMatches]
    · show (parseEnvNul (envRecords records))[name]? = _
      rw [parseEnvNul_envRecords hrecords, TreeMap.getElem?_foldl_insert, ← List.filter_reverse, TreeMap.lookup_filter]
      simp
  · have hne : k ≠ [] := fun he => hk (he ▸ List.nil_infix)
    have hnone : splitFirst k out = none := by
      rw [← Option.not_isSome_iff_eq_none, isSome_splitFirst hne]
      exact hk
    unfold parseShellDump
    rw [hnone]
    exact ⟨_, rfl⟩

end Wsmr
