import TreeLint.Proofs.Layering
import TreeLint.Proofs.Resolution

/-! Options through layers. Whatever layers are laid on a configuration, each one is checked anew as
a whole; so no setting ever has options but one object of lists of texts, and whatever a rule asks of
its options is such a list or absent. -/

namespace TreeLint

/-- Options that a rule can read: none, or one object with lists of texts under keys that its
schema names or under the key of the patterns to ignore. -/
inductive RuleInfo.Reads (info : RuleInfo) : List Value → Prop
  | none : Reads info []
  | object {members : Members} :
      (∀ member ∈ members, member.1 = "ignore" ∨
        ∃ schema ∈ info.schema, member.1 ∈ schema.properties.map (·.1)) →
      (∀ key v, members.lookup key = some v → v.IsTexts) → Reads info [.object members]

namespace Registry
open Rules

/-- Every rule has one schema, which lets it ignore files. -/
theorem standard_schema : ∀ rule ∈ standard.rules,
    ∃ properties, rule.info.schema = [.withIgnore properties] := by
  rw [standard_rules]
  simp only [allRules, List.forall_mem_cons, List.not_mem_nil, false_implies, implies_true,
    and_true]
  refine ⟨?_, ?_, ?_, ?_, ?_, ?_, ?_, ?_, ?_, ?_, ?_, ?_, ?_, ?_, ?_, ?_, ?_, ?_, ?_⟩
  all_goals exact ⟨_, rfl⟩

end Registry

theorem RuleInfo.Takes.reads {rule : Rule} (known : rule ∈ Registry.standard.rules)
    {options : List Value} (takes : rule.info.Takes options) : rule.info.Reads options := by
  obtain ⟨properties, described⟩ := Registry.standard_schema rule known
  obtain ⟨few, fits⟩ := takes
  rw [described] at few fits
  match options, few with
  | [], _ => exact .none
  | [option], _ =>
    have admits := fits (_, option) List.mem_cons_self
    obtain ⟨members, rfl, named⟩ := admits.object
    refine .object (fun member among => .inr ?_) fun key v held => admits.isTexts held
    rw [described]
    exact ⟨_, List.mem_singleton_self _, OptionsSchema.hasProperty_iff.mp (named member among)⟩

namespace Configuration

variable [Host]

/-- The configuration after overrides were tried on it: it stays if they cannot be laid on it. -/
def overridden (config : Configuration) (overrides : Members) : Configuration :=
  match config.withOverrides overrides with
  | .ok new => new
  | .error _ => config

/-- The configuration after layers of overrides were tried on it, in turn. -/
def layered (config : Configuration) (layers : List Members) : Configuration :=
  layers.foldl overridden config

/-- Each setting is one of a rule, and its options are such that the rule can read them. -/
def Readable (config : Configuration) : Prop :=
  ∀ entry ∈ config.settings, ∃ rule ∈ Registry.standard.rules, rule.name = entry.1 ∧
    rule.info.Reads entry.2.options

omit [Host] in
theorem registered_presetSettings {names : List String} {entry : String × RuleSetting}
    (member : entry ∈ presetSettings names) : ∃ rule ∈ Registry.standard.rules,
      rule.name = entry.1 := by
  rw [presetSettings_eq] at member
  split at member
  · cases member
  · obtain ⟨rule, known, rfl⟩ := List.mem_map.mp member
    exact ⟨rule, known, rfl⟩

theorem registered_withEntries {settings final : List (String × RuleSetting)} {entries : Members}
    (registered : ∀ entry ∈ settings, ∃ rule ∈ Registry.standard.rules, rule.name = entry.1)
    (made : withEntries settings entries = .ok final) :
    ∀ entry ∈ final, ∃ rule ∈ Registry.standard.rules, rule.name = entry.1 := by
  induction entries generalizing settings with
  | nil =>
    cases made
    exact registered
  | cons first rest ih =>
    obtain ⟨key, entry⟩ := first
    unfold withEntries at made
    obtain ⟨⟨name, setting⟩, read, made⟩ := bind_ok_iff.mp made
    obtain ⟨rule, resolved, rfl, -⟩ := readEntry_ok_iff.mp read
    refine ih (fun other member => ?_) made
    rcases Table.mem_of_mem_put member with rfl | old
    · exact ⟨rule, Registry.mem_of_resolve resolved, rfl⟩
    · exact registered other old

/-- Every table that makes a configuration makes a readable one. -/
theorem readable_of_ofTable {table : Members} {config : Configuration}
    (made : ofTable table = .ok config) : config.Readable := by
  obtain ⟨names, entries, -, -, -, settled⟩ := ofTable_ok_iff.mp made
  have sound := sound_withEntries (sound_presetSettings names) settled
  intro entry member
  obtain ⟨rule, known, named⟩ :=
    registered_withEntries (fun _ => registered_presetSettings) settled entry member
  exact ⟨rule, known, named, (sound entry member rule known named).reads known⟩

/-- A layer is read as a whole, so it keeps a configuration readable. -/
theorem Readable.overridden {config : Configuration} (readable : config.Readable)
    (overrides : Members) : (config.overridden overrides).Readable := by
  unfold Configuration.overridden
  split
  · rename_i new laid
    obtain ⟨entries, -, made⟩ := bind_ok_iff.mp laid
    exact readable_of_ofTable made
  · exact readable

theorem Readable.layered {config : Configuration} (readable : config.Readable)
    (layers : List Members) : (config.layered layers).Readable := by
  unfold Configuration.layered
  induction layers generalizing config with
  | nil => exact readable
  | cons overrides rest ih => exact ih (readable.overridden overrides)

omit [Host] in
theorem Readable.reads_of_enabled {config : Configuration} (readable : config.Readable)
    {rule : Rule} {setting : RuleSetting} (enabled : (rule, setting) ∈ config.enabledRules) :
    rule.info.Reads setting.options := by
  rw [enabledRules_eq] at enabled
  obtain ⟨member, runs⟩ := List.mem_filter.mp enabled
  obtain ⟨same, known, given⟩ := List.mem_map.mp member
  cases given
  unfold settingFor
  cases held : config.settings.lookup rule.name with
  | none => exact .none
  | some setting =>
    obtain ⟨other, registered, named, reads⟩ :=
      readable (rule.name, setting) (Table.mem_of_lookup held)
    obtain rfl := Registry.eq_of_name registered known named
    exact reads

end Configuration

namespace RuleContext

variable {context : RuleContext}

theorem isTexts_of_reads (reads : context.info.Reads context.options) {key : String} {v : Value}
    (found : context.option? key = some v) : v.IsTexts := by
  unfold option? at found
  generalize context.options = options at reads found
  cases reads with
  | none => cases found
  | object _ texts => exact texts key v found

theorem optionItems_texts (reads : context.info.Reads context.options) (key : String)
    (whenAbsent : List String) : ∃ texts : List String,
      context.optionItems key whenAbsent = .ok (texts.map .str) := by
  unfold optionItems
  cases found : context.option? key with
  | none => exact ⟨whenAbsent, rfl⟩
  | some v =>
    obtain ⟨texts, rfl⟩ := (isTexts_of_reads reads found).eq_list
    exact ⟨texts, rfl⟩

end RuleContext

namespace Configuration

section

variable [Host]

/-- However many layers are tried on a configuration that a value makes, every setting has options
that its rule can read; so a rule at work finds a list of texts under each key that it asks for, or
nothing. -/
theorem options_readable {v : Value} {config : Configuration} (made : ofValue v = .ok config)
    (layers : List Members) :
    (∀ entry ∈ (config.layered layers).settings, ∃ rule ∈ Registry.standard.rules,
      rule.name = entry.1 ∧ rule.info.Reads entry.2.options) ∧
    ∀ rule setting, (rule, setting) ∈ (config.layered layers).enabledRules →
      ∀ file cwd key,
        (∀ v, (Lint.contextFor file cwd rule setting).option? key = some v → v.IsTexts) ∧
        ∀ whenAbsent, ∃ texts : List String,
          (Lint.contextFor file cwd rule setting).optionItems key whenAbsent =
            .ok (texts.map .str) := by
  have readable : config.Readable := by
    unfold ofValue at made
    split at made
    · obtain ⟨table, -, made⟩ := bind_ok_iff.mp made
      exact readable_of_ofTable made
    · exact readable_of_ofTable made
  have kept := readable.layered layers
  refine ⟨kept, fun rule setting enabled file cwd key => ?_⟩
  have reads : (Lint.contextFor file cwd rule setting).info.Reads
      (Lint.contextFor file cwd rule setting).options := kept.reads_of_enabled enabled
  exact ⟨fun v found => RuleContext.isTexts_of_reads reads found,
    RuleContext.optionItems_texts reads key⟩

end

def aliasTable : Members :=
  [("rules", .object [("enforce-alias-import-paths",
    .list [.str "warn", .object [("aliases", .list [.str "~"])]])])]

/-- Two layers, the first of which has an option that is no list. -/
def aliasLayers : List Members :=
  [[("enforce-alias-import-paths", .list [.str "error", .object [("aliases", .str "~")]])],
    [("enforce-alias-import-paths",
      .list [.str "error", .object [("aliases", .list [.str "@", .str "~"])]])]]

attribute [local instance] Host.usual in
theorem options_readable_aliases : ∃ config, ofValue (.object aliasTable) = .ok config ∧
    ((config.layered aliasLayers).settingFor "enforce-alias-import-paths").options.length = 1 ∧
    ∀ entry ∈ (config.layered aliasLayers).settings, ∃ rule ∈ Registry.standard.rules,
      rule.name = entry.1 ∧ rule.info.Reads entry.2.options := by
  have length : (do
      let config ← ofValue (.object aliasTable)
      return ((config.layered aliasLayers).settingFor
        "enforce-alias-import-paths").options.length).toOption = some 1 := by
    decide +kernel
  cases made : ofValue (.object aliasTable) with
  | error error =>
    rw [made] at length
    cases length
  | ok config =>
    rw [made] at length
    exact ⟨config, rfl, Option.some.inj length, (options_readable made aliasLayers).1⟩

end Configuration

end TreeLint
