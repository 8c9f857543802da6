import TreeLint.Proofs.LoadedTree
import TreeLint.Proofs.Settings

/-! Layers of a configuration. Overrides are laid on the entries of a table by their keys, so a key
that is there already keeps its place, and of the two spellings of a rule the one that stands last
settles it. An override therefore settles its rule just when its key comes to stand last. -/

namespace TreeLint.Configuration

section

variable [Host]

/-- Configurations that an object gives, and those that layers of overrides make of them. -/
inductive Reached : Configuration → Prop
  | start {members : Members} {config : Configuration} : (Value.object members).Distinct →
      ofValue (.object members) = .ok config → Reached config
  | layer {config new : Configuration} {overrides : Members} : Reached config →
      (overrides.map (·.1)).Nodup → config.withOverrides overrides = .ok new → Reached new

omit [Host] in
theorem ruleEntries_put (table entries : Members) :
    ruleEntries (Table.put table "rules" (.object entries)) = .ok entries := by
  rw [ruleEntries, Table.lookup_put, if_pos rfl]

/-- A layer is made of the entries before it, with the overrides laid on them. -/
theorem withOverrides_ok_iff {config new : Configuration} {overrides : Members} :
    config.withOverrides overrides = .ok new ↔ ∃ earlier names,
      ruleEntries config.table = .ok earlier ∧
      new.table = Table.put config.table "rules" (.object (Table.putAll earlier overrides)) ∧
      presets new.table = .ok names ∧
      withEntries (presetSettings names) (Table.putAll earlier overrides) = .ok new.settings := by
  unfold withOverrides
  simp only [bind_ok_iff, ofTable_ok_iff]
  constructor
  · rintro ⟨earlier, listed, names, entries, existing, merged, table, made⟩
    rw [ruleEntries_put, Except.ok.injEq] at merged
    subst merged
    exact ⟨earlier, names, listed, table, table ▸ existing, made⟩
  · rintro ⟨earlier, names, listed, table, existing, made⟩
    exact ⟨earlier, listed, names, _, table ▸ existing, ruleEntries_put _ _, table, made⟩

omit [Host] in
theorem ruleEntries_nodup {members entries : Members} (distinct : (Value.object members).Distinct)
    (listed : ruleEntries members = .ok entries) : (entries.map (·.1)).Nodup := by
  unfold ruleEntries at listed
  split at listed
  · cases listed
    exact List.nodup_nil
  · rename_i held found
    cases listed
    cases distinct with
    | object keys inside =>
      have rules := inside ("rules", .object entries) (Table.mem_of_lookup found)
      cases rules with
      | object distinct => exact distinct
  · cases listed

/-- However many layers there are, no key has two entries. -/
theorem Reached.entries_nodup {config : Configuration} (reached : config.Reached)
    {entries : Members} (listed : ruleEntries config.table = .ok entries) :
    (entries.map (·.1)).Nodup := by
  induction reached generalizing entries with
  | @start members config distinct made =>
    have table : config.table = members := by
      unfold ofValue at made
      split at made
      · obtain ⟨held, given, made⟩ := bind_ok_iff.mp made
        obtain ⟨names, entries, -, -, same, -⟩ := ofTable_ok_iff.mp made
        cases given
        exact same
      · rename_i empty
        obtain ⟨names, entries, -, -, same, -⟩ := ofTable_ok_iff.mp made
        cases members with
        | nil => exact same
        | cons member rest => exact absurd rfl empty
    rw [table] at listed
    exact ruleEntries_nodup distinct listed
  | @layer config new overrides _ _ layered ih =>
    obtain ⟨earlier, names, held, table, -, -⟩ := withOverrides_ok_iff.mp layered
    rw [table, ruleEntries_put, Except.ok.injEq] at listed
    subst listed
    exact Table.keys_putAll_nodup (ih held) overrides

/-- The key of an override comes to stand last among the keys that name a rule: it is new, or it
stood last before and no key that names the rule is new. -/
def StandsLast (name key : String) (earlier overrides : Members) : Prop :=
  earlier.lookup key = none ∨ ((lastFor name earlier).map (·.1) = some key ∧
    ∀ e ∈ overrides, Registry.bareName e.1 = name → (earlier.lookup e.1).isSome)

omit [Host] in
theorem lastFor_map (name : String) (entries : Members) (change : String × Value → Value) :
    lastFor name (entries.map fun e => (e.1, change e)) =
      (lastFor name entries).map fun e => (e.1, change e) := by
  unfold lastFor
  rw [List.filter_map, List.getLast?_map]
  rfl

omit [Host] in
/-- The last entry for a rule stays the last of those that are kept, if it is kept. -/
theorem lastFor_filter {name : String} {entries : Members} {e : String × Value}
    {kept : String × Value → Bool} (last : lastFor name entries = some e) (keeps : kept e = true) :
    lastFor name (entries.filter kept) = some e := by
  unfold lastFor at last ⊢
  rw [List.filter_comm]
  obtain ⟨before, split⟩ := List.getLast?_eq_some_iff.mp last
  rw [split, List.filter_append, List.getLast?_append]
  simp [keeps]

omit [Host] in
theorem lastFor_putAll {earlier overrides : Members} (distinct : (earlier.map (·.1)).Nodup)
    (apart : (overrides.map (·.1)).Nodup) (name : String) :
    lastFor name (Table.putAll earlier overrides) =
      (lastFor name (overrides.filter fun e => e.1 ∉ earlier.map (·.1))).or
        ((lastFor name earlier).map fun e => (e.1, (overrides.lookup e.1).getD e.2)) := by
  rw [Table.putAll_eq distinct apart, lastFor_append, lastFor_map]

omit [Host] in
/-- The last override for a rule is the last entry for it just when its key comes to stand last. -/
theorem lastFor_putAll_iff {earlier overrides : Members} (distinct : (earlier.map (·.1)).Nodup)
    (apart : (overrides.map (·.1)).Nodup) {name key : String} {entry : Value}
    (last : lastFor name overrides = some (key, entry)) :
    lastFor name (Table.putAll earlier overrides) = some (key, entry) ↔
      StandsLast name key earlier overrides := by
  obtain ⟨member, named⟩ := bareName_of_lastFor last
  rw [lastFor_putAll distinct apart]
  constructor
  · intro settled
    cases fresh : lastFor name (overrides.filter fun e => e.1 ∉ earlier.map (·.1)) with
    | some found =>
      rw [fresh, Option.some_or, Option.some.injEq] at settled
      subst settled
      have new := (List.mem_filter.mp (bareName_of_lastFor fresh).1).2
      exact .inl (Table.lookup_none_iff.mpr (by simpa using new))
    | none =>
      rw [fresh, Option.none_or] at settled
      obtain ⟨old, stood, same⟩ := Option.map_eq_some_iff.mp settled
      refine .inr ⟨by rw [stood, Option.map_some, (Prod.mk.inj same).1], ?_⟩
      intro e here names
      by_contra absent
      have new : e.1 ∉ earlier.map (·.1) :=
        Table.lookup_none_iff.mp (Option.not_isSome_iff_eq_none.mp absent)
      have kept : e ∈ overrides.filter fun e => e.1 ∉ earlier.map (·.1) :=
        List.mem_filter.mpr ⟨here, by simpa using new⟩
      exact lastFor_eq_none_iff.mp fresh e kept names
  · rintro (new | ⟨stood, present⟩)
    · have fresh : key ∉ earlier.map (·.1) := Table.lookup_none_iff.mp new
      rw [lastFor_filter last (by simpa using fresh), Option.some_or]
    · have none : lastFor name (overrides.filter fun e => e.1 ∉ earlier.map (·.1)) = none := by
        rw [lastFor_eq_none_iff]
        intro e kept names
        obtain ⟨here, new⟩ := List.mem_filter.mp kept
        have old := present e here names
        rw [Table.lookup_none_iff.mpr (by simpa using new)] at old
        exact absurd old (by decide)
      obtain ⟨old, found, rfl⟩ := Option.map_eq_some_iff.mp stood
      rw [none, found, Option.none_or, Option.map_some, Table.lookup_of_mem apart member,
        Option.getD_some]

omit [Host] in
/-- A rule that an override names is named by some entry afterwards. -/
theorem lastFor_putAll_ne_none {earlier overrides : Members}
    (distinct : (earlier.map (·.1)).Nodup) (apart : (overrides.map (·.1)).Nodup)
    {name : String} {e : String × Value} (last : lastFor name overrides = some e) :
    lastFor name (Table.putAll earlier overrides) ≠ none := by
  obtain ⟨member, named⟩ := bareName_of_lastFor last
  intro none
  rw [lastFor_putAll distinct apart, Option.or_eq_none_iff, Option.map_eq_none_iff] at none
  obtain ⟨fresh, old⟩ := none
  by_cases present : e.1 ∈ earlier.map (·.1)
  · obtain ⟨before, here, same⟩ := List.mem_map.mp present
    exact lastFor_eq_none_iff.mp old before here (same ▸ named)
  · have kept : e ∈ overrides.filter fun e => e.1 ∉ earlier.map (·.1) :=
      List.mem_filter.mpr ⟨member, by simpa using present⟩
    exact lastFor_eq_none_iff.mp fresh e kept named

/-- A rule that overrides name is settled by the entry for it that stands last once the overrides
are laid on the entries before. That entry is the last override for the rule just when the key of
this override comes to stand last; else the other spelling of the rule outlasts it. -/
theorem settingFor_withOverrides {config new : Configuration} {overrides : Members}
    (reached : config.Reached) (apart : (overrides.map (·.1)).Nodup)
    (layered : config.withOverrides overrides = .ok new) {name key : String} {entry : Value}
    (last : lastFor name overrides = some (key, entry)) :
    ∃ earlier winner value rule, ruleEntries config.table = .ok earlier ∧
      lastFor name (Table.putAll earlier overrides) = some (winner, value) ∧
      Registry.standard.resolve winner = .ok rule ∧ rule.name = name ∧
      settingOf rule value = .ok (new.settingFor name) ∧
      ((winner, value) = (key, entry) ↔ StandsLast name key earlier overrides) := by
  obtain ⟨earlier, names, listed, -, -, made⟩ := withOverrides_ok_iff.mp layered
  have distinct := reached.entries_nodup listed
  have stands := lastFor_putAll_iff distinct apart last
  have settled := lookup_withEntries made name
  obtain ⟨⟨winner, value⟩, found⟩ :=
    Option.ne_none_iff_exists'.mp (lastFor_putAll_ne_none distinct apart last)
  rw [found] at settled stands
  obtain ⟨rule, setting, resolved, named, given, stored⟩ := settled
  refine ⟨earlier, winner, value, rule, listed, found, resolved, named, ?_, ?_⟩
  · rw [settingFor, stored, Option.getD_some, given]
  · rw [← stands, Option.some.injEq]

end

/-- A table whose rules name one rule in both spellings. -/
def spelledTwice : Members :=
  [("extends", .list []), ("rules", .object [("no-default-export", .str "warn"),
    ("eslint-frontend-rules/no-default-export", .str "error")])]

def switchedOff : Members := [("no-default-export", .str "off")]

theorem spelledTwice_distinct : (Value.object spelledTwice).Distinct := by
  refine .object (by decide) ?_
  simp only [spelledTwice, List.forall_mem_cons, List.not_mem_nil, false_implies, implies_true,
    and_true]
  refine ⟨.list (List.forall_mem_nil _), .object (by decide) ?_⟩
  simp only [List.forall_mem_cons, List.not_mem_nil, false_implies, implies_true, and_true]
  exact ⟨.str _, .str _⟩

section

attribute [local instance] Host.usual

/-- The override can be laid on the table, and leaves the severity that the other spelling gives. -/
theorem switchedOff_layered : ∃ config new : Configuration, config.Reached ∧
    config.withOverrides switchedOff = .ok new ∧
    (new.settingFor "no-default-export").severity = .error := by
  have severity : (do
      let config ← ofValue (.object spelledTwice)
      let new ← config.withOverrides switchedOff
      return (new.settingFor "no-default-export").severity).toOption = some Severity.error := by
    decide +kernel
  cases made : ofValue (.object spelledTwice) with
  | error fault =>
    rw [made] at severity
    cases severity
  | ok config =>
    cases laid : config.withOverrides switchedOff with
    | error fault => simp [made, laid, Bind.bind, Except.bind, Except.toOption] at severity
    | ok new =>
      refine ⟨config, new, .start spelledTwice_distinct made, laid, ?_⟩
      simpa [made, laid, Bind.bind, Except.bind, Except.toOption, Pure.pure, Except.pure]
        using severity

/-- An override whose key stands before the other spelling of its rule. -/
theorem settingFor_switchedOff : ∃ (config new : Configuration) (earlier : Members)
    (winner : String) (value : Value) (rule : Rule), ruleEntries config.table = .ok earlier ∧
    lastFor "no-default-export" (Table.putAll earlier switchedOff) = some (winner, value) ∧
    Registry.standard.resolve winner = .ok rule ∧ rule.name = "no-default-export" ∧
    settingOf rule value = .ok (new.settingFor "no-default-export") ∧
    ((winner, value) = ("no-default-export", .str "off") ↔
      StandsLast "no-default-export" "no-default-export" earlier switchedOff) := by
  obtain ⟨config, new, reached, layered, -⟩ := switchedOff_layered
  have last : lastFor "no-default-export" switchedOff =
      some ("no-default-export", .str "off") := by rfl
  exact ⟨config, new, settingFor_withOverrides reached (by decide) layered last⟩

/-- The last override for a rule need not settle it. -/
theorem override_outlasted :
    ¬ ∀ (config new : Configuration) (overrides : Members) (name key : String) (entry : Value),
      config.Reached → (overrides.map (·.1)).Nodup → config.withOverrides overrides = .ok new →
      lastFor name overrides = some (key, entry) →
      ∃ rule, Registry.standard.resolve key = .ok rule ∧ rule.name = name ∧
        settingOf rule entry = .ok (new.settingFor name) := by
  intro claim
  obtain ⟨config, new, reached, layered, severity⟩ := switchedOff_layered
  obtain ⟨rule, -, -, given⟩ := claim config new switchedOff "no-default-export"
    "no-default-export" (.str "off") reached (by decide) layered (by rfl)
  have off : Severity.ofValue (.str "off") = .ok .off := by decide +kernel
  rw [severity_of_settingOf given, severity] at off
  cases off

end

end TreeLint.Configuration
