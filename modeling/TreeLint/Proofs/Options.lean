import TreeLint.Proofs.BracedText
import TreeLint.Proofs.Settings

/-! Options of rules. The check of a setting lets through what the schema of its rule describes and
nothing else, so every rule that is enabled finds lists of texts under the keys that it knows. -/

namespace TreeLint

def Value.IsTexts (v : Value) : Prop :=
  ∃ items, v = .list items ∧ ∀ item ∈ items, ∃ text, item = .str text

namespace OptionsSchema

/-- An option is what a schema describes: an object with lists of texts under keys of the schema,
and no others. -/
structure Admits (schema : OptionsSchema) (option : Value) : Prop where
  object : ∃ members, option = .object members ∧
    ∀ member ∈ members, schema.hasProperty member.1 = true
  texts : ∀ property ∈ schema.properties, ∀ v,
    option.member? property.1 = some v → v.IsTexts

variable [Host]

theorem itemErrors_eq_nil {key : String} {i : Nat} {items : List Value}
    (clean : itemErrors key i items = .ok []) : ∀ item ∈ items, ∃ text, item = .str text := by
  fun_induction itemErrors key i items with
  | case1 => exact List.forall_mem_nil _
  | case2 i text rest ih => exact List.forall_mem_cons.mpr ⟨⟨text, rfl⟩, ih clean⟩
  | case3 i item rest other =>
    obtain ⟨written, -, clean⟩ := bind_ok_iff.mp clean
    obtain ⟨errors, -, clean⟩ := bind_ok_iff.mp clean
    cases clean

theorem propertyErrors_eq_nil {key : String} {v : Value}
    (clean : propertyErrors key v = .ok []) : v.IsTexts := by
  unfold propertyErrors at clean
  split at clean
  · exact ⟨_, rfl, itemErrors_eq_nil clean⟩
  · obtain ⟨written, -, clean⟩ := bind_ok_iff.mp clean
    cases clean

theorem namedErrors_eq_nil {members : Members} {properties : List (String × Members)}
    (clean : namedErrors members properties = .ok []) :
    ∀ property ∈ properties, ∀ v, members.lookup property.1 = some v → v.IsTexts := by
  induction properties with
  | nil => exact List.forall_mem_nil _
  | cons property rest ih =>
    unfold namedErrors at clean
    cases held : members.lookup property.1 with
    | none =>
      simp only [held, pure_bind] at clean
      obtain ⟨more, later, clean⟩ := bind_ok_iff.mp clean
      obtain rfl : more = [] := Except.ok.inj clean
      refine List.forall_mem_cons.mpr ⟨fun v found => ?_, ih later⟩
      rw [held] at found
      cases found
    | some held' =>
      simp only [held] at clean
      obtain ⟨errors, here, clean⟩ := bind_ok_iff.mp clean
      obtain ⟨more, later, clean⟩ := bind_ok_iff.mp clean
      obtain ⟨rfl, rfl⟩ := List.append_eq_nil_iff.mp (Except.ok.inj clean)
      refine List.forall_mem_cons.mpr ⟨fun v found => ?_, ih later⟩
      rw [held] at found
      cases found
      exact propertyErrors_eq_nil here

/-- What passes the check is what the schema describes. -/
theorem admits_of_firstError? {schema : OptionsSchema} {option : Value}
    (passes : schema.firstError? option = .ok none) : schema.Admits option := by
  obtain ⟨errors, found, passes⟩ := bind_ok_iff.mp passes
  obtain rfl : errors = [] := by
    have none := List.head?_eq_none_iff.mp (Except.ok.inj passes)
    exact List.eq_nil_of_length_eq_zero (by rw [← List.length_mergeSort, none, List.length_nil])
  cases option with
  | object members =>
    obtain ⟨named, clean, found⟩ := bind_ok_iff.mp found
    obtain ⟨rfl, others⟩ := List.append_eq_nil_iff.mp (Except.ok.inj found)
    refine ⟨⟨members, rfl, fun member among => ?_⟩, namedErrors_eq_nil clean⟩
    by_contra unknown
    have unexpected : member.1 ∈ schema.unexpectedKeys members := by
      unfold unexpectedKeys
      simp only [List.mem_mergeSort, List.mem_filter, List.mem_map]
      exact ⟨⟨member, among, rfl⟩, by simpa using unknown⟩
    split at others
    · rename_i none
      rw [none] at unexpected
      cases unexpected
    · cases others
  | _ =>
    obtain ⟨written, -, found⟩ := bind_ok_iff.mp found
    cases found

end OptionsSchema

/-- Options are what the schemas of a rule describe, one by one. -/
def RuleInfo.Takes (info : RuleInfo) (options : List Value) : Prop :=
  options.length ≤ info.schema.length ∧ ∀ pair ∈ info.schema.zip options, pair.1.Admits pair.2

namespace Configuration

variable [Host]

theorem admits_of_checkOptions {rule : Rule} {number : Nat} {schemas : List OptionsSchema}
    {options : List Value} (passes : checkOptions rule number schemas options = .ok ()) :
    ∀ pair ∈ schemas.zip options, pair.1.Admits pair.2 := by
  fun_induction checkOptions rule number schemas options with
  | case1 => cases passes
  | case2 => cases passes
  | case3 number schema schemas option options none ih =>
    rw [List.zip_cons_cons]
    exact List.forall_mem_cons.mpr ⟨OptionsSchema.admits_of_firstError? none, ih passes⟩
  | case4 schemas number options ends =>
    cases schemas with
    | nil => exact List.forall_mem_nil _
    | cons schema schemas =>
      cases options with
      | nil => exact List.forall_mem_nil _
      | cons option options => exact (ends schema schemas option options rfl rfl).elim

theorem takes_of_settingOf {rule : Rule} {entry : Value} {setting : RuleSetting}
    (made : settingOf rule entry = .ok setting) : rule.info.Takes setting.options := by
  obtain ⟨named, -, -, few, checked⟩ := parts_of_settingOf made
  exact ⟨few, admits_of_checkOptions checked⟩

def Sound (settings : List (String × RuleSetting)) : Prop :=
  ∀ entry ∈ settings, ∀ rule ∈ Registry.standard.rules, rule.name = entry.1 →
    rule.info.Takes entry.2.options

omit [Host] in
theorem sound_presetSettings (names : List String) : Sound (presetSettings names) := by
  intro entry member rule _ _
  have none : entry.2.options = [] := by
    unfold presetSettings at member
    split at member
    · cases member
    · obtain ⟨recommended, -, rfl⟩ := List.mem_map.mp member
      rfl
  rw [none, RuleInfo.Takes, List.zip_nil_right]
  exact ⟨Nat.zero_le _, List.forall_mem_nil _⟩

theorem sound_withEntries {settings final : List (String × RuleSetting)} {entries : Members}
    (sound : Sound settings) (made : withEntries settings entries = .ok final) : Sound final := by
  induction entries generalizing settings with
  | nil =>
    cases made
    exact sound
  | cons first rest ih =>
    obtain ⟨key, entry⟩ := first
    unfold withEntries at made
    obtain ⟨⟨name, setting⟩, read, made⟩ := bind_ok_iff.mp made
    obtain ⟨rule, resolved, rfl, given⟩ := readEntry_ok_iff.mp read
    refine ih (fun other member => ?_) made
    rcases Table.mem_of_mem_put member with rfl | old
    · intro same known named
      obtain rfl : same = rule := Registry.eq_of_name known (Registry.mem_of_resolve resolved) named
      exact takes_of_settingOf given
    · exact sound other old

/-- Every rule that a configuration enables has options that it takes. -/
theorem takes_of_enabled {table : Members} {config : Configuration}
    (made : ofTable table = .ok config) {rule : Rule} {setting : RuleSetting}
    (enabled : (rule, setting) ∈ config.enabledRules) : rule.info.Takes setting.options := by
  obtain ⟨names, entries, -, -, -, settled⟩ := ofTable_ok_iff.mp made
  have sound := sound_withEntries (sound_presetSettings names) settled
  obtain ⟨known, here, found⟩ := List.mem_filterMap.mp enabled
  cases stored : config.settings.lookup known.name with
  | none =>
    rw [stored] at found
    cases found
  | some given =>
    rw [stored] at found
    dsimp only at found
    split at found
    · cases found
      exact sound (rule.name, setting) (Table.mem_of_lookup stored) rule here rfl
    · cases found

end Configuration

namespace RuleContext

/-- Under a key that its schema names, a rule finds a list of texts, or nothing. -/
theorem isTexts_of_option? {context : RuleContext} {schema : OptionsSchema} {key : String}
    (described : context.info.schema = [schema]) (known : key ∈ schema.properties.map (·.1))
    (takes : context.info.Takes context.options) {v : Value}
    (found : context.option? key = some v) : v.IsTexts := by
  have admitted := takes.2
  rw [described] at admitted
  unfold option? at found
  cases given : context.options with
  | nil =>
    rw [given] at found
    cases found
  | cons option rest =>
    rw [given] at found admitted
    obtain ⟨property, member, rfl⟩ := List.mem_map.mp known
    have admits := admitted (schema, option) List.mem_cons_self
    exact admits.texts property member v found

end RuleContext

end TreeLint
