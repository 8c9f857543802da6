import TreeLint.Config.Basic
import TreeLint.Proofs.Reporting
import TreeLint.Proofs.Table

/-! What the entries of a table make of the settings. A rule may be named with the namespace or
without it; of the entries that name it, the last one settles it, and a rule that no entry names is
left as the presets have it. -/

namespace TreeLint

theorem Registry.name_of_resolve {key : String} {rule : Rule}
    (resolved : standard.resolve key = .ok rule) : rule.name = bareName key := by
  unfold resolve at resolved
  cases found : standard.rule? (bareName key) with
  | none =>
    rw [found] at resolved
    cases resolved
  | some known =>
    rw [found] at resolved
    cases resolved
    simpa using List.find?_some found

theorem Registry.mem_of_resolve {key : String} {rule : Rule}
    (resolved : standard.resolve key = .ok rule) : rule ∈ standard.rules := by
  unfold resolve at resolved
  cases found : standard.rule? (bareName key) with
  | none =>
    rw [found] at resolved
    cases resolved
  | some known =>
    rw [found] at resolved
    cases resolved
    exact List.mem_of_find?_eq_some found

namespace Configuration

def lastFor (name : String) (entries : Members) : Option (String × Value) :=
  (entries.filter fun e => Registry.bareName e.1 == name).getLast?

theorem lastFor_append (name : String) (first second : Members) :
    lastFor name (first ++ second) = (lastFor name second).or (lastFor name first) := by
  rw [lastFor, List.filter_append, List.getLast?_append]
  rfl

theorem lastFor_eq_none_iff {name : String} {entries : Members} :
    lastFor name entries = none ↔ ∀ e ∈ entries, Registry.bareName e.1 ≠ name := by
  rw [lastFor, List.getLast?_eq_none_iff, List.filter_eq_nil_iff]
  simp only [beq_iff_eq, ne_eq]

theorem lastFor_cons (name : String) (e : String × Value) (rest : Members) :
    lastFor name (e :: rest) = (lastFor name rest).or
      (if Registry.bareName e.1 = name then some e else none) := by
  rw [← List.singleton_append, lastFor_append]
  congr 1
  by_cases here : Registry.bareName e.1 = name
  · simp [lastFor, here]
  · simp [lastFor, here]

theorem bareName_of_lastFor {name : String} {entries : Members} {e : String × Value}
    (last : lastFor name entries = some e) : e ∈ entries ∧ Registry.bareName e.1 = name := by
  have member := List.mem_filter.mp (List.mem_of_getLast? last)
  exact ⟨member.1, by simpa using member.2⟩

variable [Host]

theorem severityOf_ok_iff {rule : Rule} {named : Value} {severity : Severity} :
    severityOf rule named = .ok severity ↔ Severity.ofValue named = .ok severity := by
  unfold severityOf
  split
  all_goals
    rename_i given
    simp [given]

/-- A setting is made of a severity, and of options that were checked if the entry is a list. -/
theorem parts_of_settingOf {rule : Rule} {entry : Value} {setting : RuleSetting}
    (made : settingOf rule entry = .ok setting) : ∃ named,
      (entry = .list (named :: setting.options) ∨ entry = named ∧ setting.options = []) ∧
      severityOf rule named = .ok setting.severity ∧
      setting.options.length ≤ rule.info.schema.length ∧
      checkOptions rule 0 rule.info.schema setting.options = .ok () := by
  unfold settingOf at made
  split at made
  · cases made
  · rename_i named options
    obtain ⟨parts, given, made⟩ := bind_ok_iff.mp made
    cases given
    obtain ⟨severity, given, made⟩ := bind_ok_iff.mp made
    by_cases many : rule.info.schema.length < options.length
    · rw [if_pos many] at made
      cases made
    · rw [if_neg many] at made
      obtain ⟨_, checked, made⟩ := bind_ok_iff.mp made
      cases made
      exact ⟨named, .inl rfl, given, Nat.le_of_not_lt many, checked⟩
  · obtain ⟨parts, given, made⟩ := bind_ok_iff.mp made
    cases given
    obtain ⟨severity, given, made⟩ := bind_ok_iff.mp made
    obtain ⟨_, checked, made⟩ := bind_ok_iff.mp made
    cases made
    exact ⟨entry, .inr ⟨rfl, rfl⟩, given, Nat.zero_le _, checked⟩

/-- An entry that is a text gives the severity that the text names. -/
theorem severity_of_settingOf {rule : Rule} {text : String} {setting : RuleSetting}
    (made : settingOf rule (.str text) = .ok setting) :
    Severity.ofValue (.str text) = .ok setting.severity := by
  obtain ⟨named, same | ⟨rfl, -⟩, given, -⟩ := parts_of_settingOf made
  · cases same
  · exact severityOf_ok_iff.mp given

theorem readEntry_ok_iff {key : String} {entry : Value} {name : String} {setting : RuleSetting} :
    readEntry key entry = .ok (name, setting) ↔ ∃ rule, Registry.standard.resolve key = .ok rule ∧
      rule.name = name ∧ settingOf rule entry = .ok setting := by
  unfold readEntry
  simp only [bind_ok_iff, pure, Except.pure, Except.ok.injEq, Prod.mk.injEq]
  constructor
  · rintro ⟨rule, resolved, _, made, named, rfl⟩
    exact ⟨rule, resolved, named, made⟩
  · rintro ⟨rule, resolved, named, made⟩
    exact ⟨rule, resolved, setting, made, named, rfl⟩

/-- A configuration was made when its presets exist, its entries stand in a table, and each of them
was understood. -/
theorem ofTable_ok_iff {table : Members} {config : Configuration} :
    ofTable table = .ok config ↔ ∃ names entries, presets table = .ok names ∧
      ruleEntries table = .ok entries ∧ config.table = table ∧
      withEntries (presetSettings names) entries = .ok config.settings := by
  unfold ofTable
  simp only [bind_ok_iff, pure, Except.pure, Except.ok.injEq]
  constructor
  · rintro ⟨names, existing, entries, listed, settings, made, rfl⟩
    exact ⟨names, entries, existing, listed, rfl, made⟩
  · rintro ⟨names, entries, existing, listed, rfl, made⟩
    exact ⟨names, existing, entries, listed, config.settings, made, rfl⟩

/-- The last entry that names a rule settles it. -/
theorem lookup_withEntries {settings final : List (String × RuleSetting)} {entries : Members}
    (made : withEntries settings entries = .ok final) (name : String) :
    match lastFor name entries with
    | none => final.lookup name = settings.lookup name
    | some (key, entry) => ∃ rule setting, Registry.standard.resolve key = .ok rule ∧
        rule.name = name ∧ settingOf rule entry = .ok setting ∧
        final.lookup name = some setting := by
  induction entries generalizing settings with
  | nil =>
    cases made
    rfl
  | cons first rest ih =>
    obtain ⟨key, entry⟩ := first
    unfold withEntries at made
    obtain ⟨⟨settled, setting⟩, read, made⟩ := bind_ok_iff.mp made
    obtain ⟨rule, resolved, named, given⟩ := readEntry_ok_iff.mp read
    have later := ih made
    rw [lastFor_cons]
    cases last : lastFor name rest with
    | some found =>
      rw [last] at later
      exact later
    | none =>
      rw [last] at later
      have known := Registry.name_of_resolve resolved
      simp only [Table.lookup_put] at later
      by_cases here : Registry.bareName key = name
      · rw [if_pos (by rw [← named, known, here])] at later
        simp only [here, if_true, Option.none_or]
        exact ⟨rule, setting, resolved, by rw [known, here], given, later⟩
      · rw [if_neg (by rw [← named, known]; exact here)] at later
        simp only [here, if_false, Option.none_or]
        exact later

end Configuration

end TreeLint
