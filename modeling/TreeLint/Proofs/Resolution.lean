import TreeLint.Proofs.EntryCheck

/-! What a table of a configuration comes to. A table makes a configuration unless what it extends,
its rules or an entry is wrong; the first thing wrong is told, unless the message would show a value
that cannot be shown. Of a configuration, the last entry for a rule settles the rule, and a rule
without an entry is as the preset has it. -/

namespace TreeLint.Configuration

section

variable [Host]

/-- The presets that a table extends: those that it names, or the recommended one. -/
inductive Extended (members : Members) : List String → Prop
  | standard : members.lookup "extends" = none → Extended members [Registry.presetName]
  | name {name : String} : members.lookup "extends" = some (.str name) → Extended members [name]
  | names {names : List String} : members.lookup "extends" = some (.list (names.map .str)) →
      Extended members names

/-- What a table extends is neither a text nor a list of texts. -/
structure NamesNothing (members : Members) (v : Value) : Prop where
  given : members.lookup "extends" = some v
  single : ∀ name, v ≠ .str name
  several : ¬ v.IsTexts

/-- Everything before the entries of a table is right: it extends presets that exist. -/
def Known (members : Members) : Prop :=
  ∃ names, Extended members names ∧ ∀ name ∈ names, name = Registry.presetName

/-- Something is wrong with a table. -/
inductive Faulty (members : Members) : Prop
  | nameless {v : Value} : NamesNothing members v → Faulty members
  | preset {names : List String} {name : String} : Extended members names → name ∈ names →
      name ≠ Registry.presetName → Faulty members
  | rules {v : Value} : members.lookup "rules" = some v → (∀ entries, v ≠ .object entries) →
      Faulty members
  | entry {entries : Members} {key : String} {entry : Value} :
      members.lookup "rules" = some (.object entries) → (key, entry) ∈ entries →
      Unusable key entry → Faulty members

/-- An entry is the first one of a table that is unusable. -/
structure FirstUnusable (members : Members) (key : String) (entry : Value) : Prop where
  known : Known members
  listed : ∃ before after, members.lookup "rules" = some (.object (before ++ (key, entry) :: after)) ∧
    ∀ e ∈ before, ¬ Unusable e.1 e.2
  unusable : Unusable key entry

/-- The error of what is wrong first with a table. -/
inductive Reports (members : Members) : ConfigError → Prop
  | nameless {v : Value} {written : String} : NamesNothing members v →
      v.shown Host.presetLevels = .ok written →
      Reports members (.invalidSetting "*" (.extendsNotNames written))
  | hidden {v : Value} {fault : Fault} : NamesNothing members v →
      v.shown Host.presetLevels = .error fault →
      Reports members (.fault fault)
  | preset {before after : List String} {name : String} :
      Extended members (before ++ name :: after) →
      (∀ earlier ∈ before, earlier = Registry.presetName) → name ≠ Registry.presetName →
      Reports members (.invalidSetting "*" (.unknownPreset name))
  | rules {v : Value} : Known members → members.lookup "rules" = some v →
      (∀ entries, v ≠ .object entries) → Reports members (.invalidSetting "*" .rulesNotTable)
  | entry {key : String} {entry : Value} {error : ConfigError} : FirstUnusable members key entry →
      readEntry key entry = .error error → Reports members error

/-- What is wrong first with a table is a value that the error would show and cannot. -/
inductive BrokenOff (members : Members) : Prop
  | nameless {v : Value} : NamesNothing members v → ¬ v.Showable Host.presetLevels → BrokenOff members
  | entry {key : String} {entry : Value} : FirstUnusable members key entry →
      Untellable key entry → BrokenOff members

section

variable {members : Members} {names : List String} {error : ConfigError}

omit [Host] in
theorem Extended.unique {others : List String} (extended : Extended members names)
    (too : Extended members others) : names = others := by
  cases extended with
  | standard none =>
    cases too with
    | standard => rfl
    | name given => simp [none] at given
    | names given => simp [none] at given
  | name held =>
    cases too with
    | standard none => simp [held] at none
    | name given => simp_all
    | names given => simp [held] at given
  | names held =>
    cases too with
    | standard none => simp [held] at none
    | name given => simp [held] at given
    | names given =>
      rw [held, Option.some.injEq, Value.list.injEq] at given
      exact List.map_injective_iff.mpr (fun _ _ => Value.str.inj) given

omit [Host] in
theorem Extended.not_namesNothing (extended : Extended members names) {v : Value} :
    ¬ NamesNothing members v := by
  rintro ⟨given, single, several⟩
  cases extended with
  | standard none => simp [none] at given
  | name held =>
    rw [held, Option.some.injEq] at given
    exact single _ given.symm
  | names held =>
    rw [held, Option.some.injEq] at given
    exact several ⟨_, given.symm, by simp⟩

omit [Host] in
theorem NamesNothing.unique {v other : Value} (nothing : NamesNothing members v)
    (too : NamesNothing members other) : v = other :=
  Option.some.inj (nothing.given.symm.trans too.given)

omit [Host] in
theorem namesNothing_list {items : List Value}
    (given : members.lookup "extends" = some (.list items))
    (other : ¬ items.all (·.string?.isSome) = true) : NamesNothing members (.list items) := by
  refine ⟨given, by nofun, ?_⟩
  rwa [Value.isTexts_list_iff]

/-- The presets of a table are those that it extends; a value that names none is shown. -/
theorem presetNames_cases (members : Members) :
    (∃ names, Extended members names ∧ presetNames members = .ok names) ∨
    ∃ v, NamesNothing members v ∧ presetNames members = match v.shown Host.presetLevels with
      | .ok written => .error (.invalidSetting "*" (.extendsNotNames written))
      | .error fault => .error (.fault fault) := by
  unfold presetNames
  split
  · rename_i none
    exact .inl ⟨_, .standard none, rfl⟩
  · rename_i name given
    exact .inl ⟨_, .name given, rfl⟩
  · rename_i items given
    split
    · rename_i texts
      refine .inl ⟨_, .names ?_, rfl⟩
      rw [Value.map_filterMap_string texts, given]
    · rename_i other
      exact .inr ⟨_, namesNothing_list given other, rfl⟩
  · rename_i v single several given
    refine .inr ⟨v, ⟨given, ?_, ?_⟩, rfl⟩
    · rintro name rfl
      exact single name rfl
    · rintro ⟨items, rfl, -⟩
      exact several items rfl

theorem presetNames_ok_iff : presetNames members = .ok names ↔ Extended members names := by
  rcases presetNames_cases members with ⟨others, extended, told⟩ | ⟨v, nothing, told⟩
  · rw [told, Except.ok.injEq]
    constructor
    · rintro rfl
      exact extended
    · exact extended.unique
  · rw [told]
    constructor
    · split <;> nofun
    · intro extended
      exact absurd nothing extended.not_namesNothing

theorem presetNames_error_iff : presetNames members = .error error ↔ ∃ v, NamesNothing members v ∧
    ((∃ written, v.shown Host.presetLevels = .ok written ∧
        error = .invalidSetting "*" (.extendsNotNames written)) ∨
      ∃ fault, v.shown Host.presetLevels = .error fault ∧ error = .fault fault) := by
  rcases presetNames_cases members with ⟨others, extended, told⟩ | ⟨v, nothing, told⟩
  · rw [told]
    constructor
    · nofun
    · rintro ⟨v, nothing, -⟩
      exact absurd nothing extended.not_namesNothing
  · rw [told]
    constructor
    · intro stopped
      refine ⟨v, nothing, ?_⟩
      split at stopped
      · rename_i written shown
        exact .inl ⟨written, shown, (Except.error.inj stopped).symm⟩
      · rename_i fault hidden
        exact .inr ⟨fault, hidden, (Except.error.inj stopped).symm⟩
    · rintro ⟨other, given, ⟨written, shown, rfl⟩ | ⟨fault, hidden, rfl⟩⟩
      · obtain rfl := nothing.unique given
        rw [shown]
      · obtain rfl := nothing.unique given
        rw [hidden]

theorem presets_ok_iff : presets members = .ok names ↔
    Extended members names ∧ ∀ name ∈ names, name = Registry.presetName := by
  unfold presets
  rw [bind_ok_iff]
  constructor
  · rintro ⟨named, told, made⟩
    split at made
    · cases made
    · rename_i none
      cases made
      exact ⟨presetNames_ok_iff.mp told, by simpa using none⟩
  · rintro ⟨extended, known⟩
    refine ⟨names, presetNames_ok_iff.mpr extended, ?_⟩
    have none : names.find? (· != Registry.presetName) = none := by simpa using known
    rw [none]
    rfl

theorem presets_error_iff : presets members = .error error ↔
    presetNames members = .error error ∨ ∃ before name after,
      Extended members (before ++ name :: after) ∧
      (∀ earlier ∈ before, earlier = Registry.presetName) ∧ name ≠ Registry.presetName ∧
      error = .invalidSetting "*" (.unknownPreset name) := by
  unfold presets
  rw [bind_error_iff]
  refine or_congr_right ?_
  constructor
  · rintro ⟨named, told, stopped⟩
    split at stopped
    · rename_i name found
      cases stopped
      obtain ⟨other, before, after, rfl, known⟩ := List.find?_eq_some_iff_append.mp found
      exact ⟨before, name, after, presetNames_ok_iff.mp told, by simpa using known,
        by simpa using other, rfl⟩
    · cases stopped
  · rintro ⟨before, name, after, extended, known, other, rfl⟩
    refine ⟨_, presetNames_ok_iff.mpr extended, ?_⟩
    have found : (before ++ name :: after).find? (· != Registry.presetName) = some name := by
      apply List.find?_eq_some_iff_append.mpr
      exact ⟨by simpa using other, before, after, rfl, by simpa using known⟩
    rw [found]

theorem known_iff : Known members ↔ ∃ names, presets members = .ok names :=
  exists_congr fun _ => presets_ok_iff.symm

omit [Host] in
theorem ruleEntries_ok_iff {entries : Members} : ruleEntries members = .ok entries ↔
    members.lookup "rules" = none ∧ entries = [] ∨
      members.lookup "rules" = some (.object entries) := by
  unfold ruleEntries
  split
  · rename_i none
    simp [none, eq_comm]
  · rename_i held given
    simp [given]
  · rename_i v other given
    have apart : ∀ entries, v ≠ .object entries := other
    simp [given, apart]

omit [Host] in
theorem ruleEntries_error_iff : ruleEntries members = .error error ↔
    ∃ v, members.lookup "rules" = some v ∧ (∀ entries, v ≠ .object entries) ∧
      error = .invalidSetting "*" .rulesNotTable := by
  unfold ruleEntries
  split
  · rename_i none
    simp [none]
  · rename_i held given
    simp [given]
  · rename_i v other given
    have apart : ∀ entries, v ≠ .object entries := other
    simp [given, apart, eq_comm]

theorem withEntries_of_ruleEntries {settings : List (String × RuleSetting)} {entries : Members}
    (listed : ruleEntries members = .ok entries)
    (stopped : withEntries settings entries = .error error) : ∃ before key entry after,
      members.lookup "rules" = some (.object (before ++ (key, entry) :: after)) ∧
      (∀ e ∈ before, ¬ Unusable e.1 e.2) ∧ readEntry key entry = .error error := by
  obtain ⟨before, key, entry, after, rfl, usable, stopped⟩ := withEntries_error_iff.mp stopped
  rcases ruleEntries_ok_iff.mp listed with ⟨-, none⟩ | given
  · simp at none
  · exact ⟨before, key, entry, after, given, usable, stopped⟩

theorem ofTable_error_cases : ofTable members = .error error ↔ presets members = .error error ∨
    ∃ names, presets members = .ok names ∧ (ruleEntries members = .error error ∨
      ∃ entries, ruleEntries members = .ok entries ∧
        withEntries (presetSettings names) entries = .error error) := by
  simp [ofTable, bind_error_iff, Pure.pure, Except.pure]

/-- A table makes no configuration just when the error of what is wrong first with it is told. -/
theorem ofTable_error_iff : ofTable members = .error error ↔ Reports members error := by
  rw [ofTable_error_cases]
  constructor
  · rintro (early | ⟨names, extended, later⟩)
    · rcases presets_error_iff.mp early with unnamed | ⟨before, name, after, extended, known⟩
      · obtain ⟨v, nothing, told⟩ := presetNames_error_iff.mp unnamed
        rcases told with ⟨written, shown, rfl⟩ | ⟨fault, hidden, rfl⟩
        · exact .nameless nothing shown
        · exact .hidden nothing hidden
      · obtain ⟨known, other, rfl⟩ := known
        exact .preset extended known other
    · have known := known_iff.mpr ⟨names, extended⟩
      rcases later with unlisted | ⟨entries, listed, stopped⟩
      · obtain ⟨v, given, other, rfl⟩ := ruleEntries_error_iff.mp unlisted
        exact .rules known given other
      · obtain ⟨before, key, entry, after, given, usable, stopped⟩ :=
          withEntries_of_ruleEntries listed stopped
        exact .entry ⟨known, ⟨before, after, given, usable⟩, readEntry_stops_iff.mp ⟨error, stopped⟩⟩
          stopped
  · intro reports
    cases reports with
    | nameless nothing shown =>
      have told := presetNames_error_iff.mpr ⟨_, nothing, .inl ⟨_, shown, rfl⟩⟩
      exact .inl (presets_error_iff.mpr (.inl told))
    | hidden nothing hidden =>
      have told := presetNames_error_iff.mpr ⟨_, nothing, .inr ⟨_, hidden, rfl⟩⟩
      exact .inl (presets_error_iff.mpr (.inl told))
    | preset extended known other =>
      exact .inl (presets_error_iff.mpr (.inr ⟨_, _, _, extended, known, other, rfl⟩))
    | rules known given other =>
      obtain ⟨names, extended⟩ := known_iff.mp known
      have unlisted := ruleEntries_error_iff.mpr ⟨_, given, other, rfl⟩
      exact .inr ⟨names, extended, .inl unlisted⟩
    | entry first stopped =>
      obtain ⟨names, extended⟩ := known_iff.mp first.known
      obtain ⟨before, after, given, usable⟩ := first.listed
      have listed := ruleEntries_ok_iff.mpr (.inr given)
      have failed : withEntries (presetSettings names) _ = .error error :=
        withEntries_error_iff.mpr ⟨before, _, _, after, rfl, usable, stopped⟩
      exact .inr ⟨names, extended, .inr ⟨_, listed, failed⟩⟩

theorem usable_of_withEntries {settings final : List (String × RuleSetting)} {entries : Members}
    (made : withEntries settings entries = .ok final) : ∀ e ∈ entries, ¬ Unusable e.1 e.2 := by
  induction entries generalizing settings with
  | nil => exact List.forall_mem_nil _
  | cons first rest ih =>
    obtain ⟨key, entry⟩ := first
    unfold withEntries at made
    obtain ⟨settled, read, made⟩ := bind_ok_iff.mp made
    exact List.forall_mem_cons.mpr ⟨usable_of_readEntry read, ih made⟩

/-- A table makes no configuration just when something is wrong with it. -/
theorem ofTable_stops_iff : (∃ error, ofTable members = .error error) ↔ Faulty members := by
  constructor
  · rintro ⟨error, stopped⟩
    cases ofTable_error_iff.mp stopped with
    | nameless nothing => exact .nameless nothing
    | hidden nothing => exact .nameless nothing
    | preset extended _ other => exact .preset extended (by simp) other
    | rules _ given other => exact .rules given other
    | entry first =>
      obtain ⟨before, after, given, -⟩ := first.listed
      exact .entry given (by simp) first.unusable
  · intro faulty
    cases made : ofTable members with
    | error error => exact ⟨error, rfl⟩
    | ok config =>
      -- each way to be faulty contradicts the step of the reading that has passed it
      obtain ⟨names, entries, existing, listed, -, settled⟩ := ofTable_ok_iff.mp made
      obtain ⟨extended, known⟩ := presets_ok_iff.mp existing
      exfalso
      cases faulty with
      | nameless nothing => exact extended.not_namesNothing nothing
      | preset too member other =>
        rw [too.unique extended] at member
        exact other (known _ member)
      | rules given other =>
        rcases ruleEntries_ok_iff.mp listed with ⟨none, -⟩ | held
        · simp [none] at given
        · rw [held, Option.some.injEq] at given
          exact other _ given.symm
      | entry given member unusable =>
        rw [ruleEntries_ok_iff.mpr (.inr given), Except.ok.injEq] at listed
        subst listed
        exact usable_of_withEntries settled _ member unusable

theorem Reports.ofEntry (reports : Reports members error) : error.OfEntry := by
  cases reports with
  | nameless | preset | rules => exact .inl trivial
  | hidden => exact .inr ⟨_, rfl⟩
  | entry _ stopped => exact readEntry_failsOnly _ _ _ stopped

/-- The reading of a table breaks off just when what is wrong first with it cannot be shown. -/
theorem ofTable_fault_iff : (∃ fault, ofTable members = .error (.fault fault)) ↔
    BrokenOff members := by
  simp only [ofTable_error_iff]
  constructor
  · rintro ⟨fault, reports⟩
    cases reports with
    | hidden nothing hidden => exact .nameless nothing (Value.not_showable_iff.mpr ⟨fault, hidden⟩)
    | entry first stopped => exact .entry first (readEntry_fault_iff.mp ⟨fault, stopped⟩)
  · intro broken
    cases broken with
    | nameless nothing hidden =>
      obtain ⟨fault, hidden⟩ := Value.not_showable_iff.mp hidden
      exact ⟨fault, .hidden nothing hidden⟩
    | entry first untellable =>
      obtain ⟨fault, stopped⟩ := readEntry_fault_iff.mpr untellable
      exact ⟨fault, .entry first stopped⟩

end

/-- An entry of a table is the last one for a rule. -/
structure LastEntry (members : Members) (rule : Rule) (key : String) (entry : Value) : Prop where
  names : Registry.Names key rule
  last : ∃ before after, members.lookup "rules" = some (.object (before ++ (key, entry) :: after)) ∧
    ∀ e ∈ after, ¬ Registry.Names e.1 rule

/-- No entry of a table is for a rule. -/
def Unmentioned (members : Members) (rule : Rule) : Prop :=
  ∀ entries, members.lookup "rules" = some (.object entries) →
    ∀ e ∈ entries, ¬ Registry.Names e.1 rule

/-- A configuration is what a table says: each rule is as its last entry has it, or without one as
the presets do, and the rules that run are those that are not off, in their order. -/
structure Follows (members : Members) (config : Configuration) : Prop where
  entry : ∀ rule key entry, LastEntry members rule key entry → ∃ named,
    partsOf entry = some (named, (config.settingFor rule.name).options) ∧
    Severity.ofValue named = .ok (config.settingFor rule.name).severity
  preset : ∀ rule ∈ Registry.standard.rules, Unmentioned members rule →
    ∀ names, Extended members names → config.settingFor rule.name =
      if Registry.presetName ∈ names then ⟨Registry.recommendedSeverity rule.name, []⟩
      else ⟨.off, []⟩
  enabled : config.enabledRules = (Registry.standard.rules.map fun rule =>
    (rule, config.settingFor rule.name)).filter (·.2.isEnabled)

omit [Host] in
theorem standard_recommended : Registry.standard.recommended = Registry.standard.rules.map
    fun rule => (Registry.qualified rule.name, Registry.recommendedSeverity rule.name) := rfl

omit [Host] in
/-- Presets that are named give every rule the severity that is recommended for it. -/
theorem presetSettings_eq (names : List String) : presetSettings names =
    if names = [] then [] else Registry.standard.rules.map fun rule =>
      (rule.name, ⟨Registry.recommendedSeverity rule.name, []⟩) := by
  unfold presetSettings
  by_cases none : names = []
  · simp [none]
  · rw [if_neg (by simpa using none), if_neg none, standard_recommended, List.map_map]
    refine List.map_congr_left fun rule _ => ?_
    simp [Registry.bareName_qualified]

omit [Host] in
theorem lookup_presetSettings {rule : Rule} (known : rule ∈ Registry.standard.rules)
    (names : List String) : (presetSettings names).lookup rule.name =
      if names = [] then none else some ⟨Registry.recommendedSeverity rule.name, []⟩ := by
  rw [presetSettings_eq]
  by_cases none : names = []
  · simp [none]
  · rw [if_neg none, if_neg none]
    have distinct : ((Registry.standard.rules.map fun rule =>
        (rule.name, (⟨Registry.recommendedSeverity rule.name, []⟩ : RuleSetting))).map
          (·.1)).Nodup := by
      rw [List.map_map]
      exact Registry.standard_names_nodup
    exact Table.lookup_of_mem distinct (List.mem_map.mpr ⟨rule, known, rfl⟩)

omit [Host] in
theorem lastFor_of_split {rule : Rule} {before after : Members} {key : String} {entry : Value}
    (names : Registry.Names key rule) (later : ∀ e ∈ after, ¬ Registry.Names e.1 rule) :
    lastFor rule.name (before ++ (key, entry) :: after) = some (key, entry) := by
  have none : lastFor rule.name after = none := by
    rw [lastFor_eq_none_iff]
    intro e member bare
    exact later e member ⟨names.1, (Registry.bareName_eq_iff names.1).mp bare⟩
  rw [lastFor_append, lastFor_cons, none,
    if_pos ((Registry.bareName_eq_iff names.1).mpr names.2)]
  rfl

omit [Host] in
theorem enabledRules_eq (config : Configuration) : config.enabledRules =
    (Registry.standard.rules.map fun rule => (rule, config.settingFor rule.name)).filter
      (·.2.isEnabled) := by
  unfold enabledRules
  rw [← List.filterMap_eq_filter, List.filterMap_map]
  refine List.filterMap_congr fun rule _ => ?_
  cases held : config.settings.lookup rule.name with
  | none => simp [settingFor, held, Option.guard, RuleSetting.isEnabled]
  | some setting => simp [settingFor, held, Option.guard]

theorem follows_of_ofTable {members : Members} {config : Configuration}
    (made : ofTable members = .ok config) : Follows members config := by
  obtain ⟨names, entries, existing, listed, -, settled⟩ := ofTable_ok_iff.mp made
  obtain ⟨extended, known⟩ := presets_ok_iff.mp existing
  constructor
  · rintro rule key entry ⟨named, before, after, given, later⟩
    rw [ruleEntries_ok_iff.mpr (.inr given), Except.ok.injEq] at listed
    subst listed
    have settled := lookup_withEntries settled rule.name
    rw [lastFor_of_split named later] at settled
    obtain ⟨same, setting, -, -, made, stored⟩ := settled
    rw [settingFor, stored, Option.getD_some]
    obtain ⟨severity, parts, given, -⟩ := settingOf_ok_iff.mp made
    exact ⟨severity, parts, given⟩
  · intro rule registered unmentioned others too
    obtain rfl := extended.unique too
    have none : lastFor rule.name entries = none := by
      rw [lastFor_eq_none_iff]
      intro e member bare
      rcases ruleEntries_ok_iff.mp listed with ⟨-, rfl⟩ | given
      · cases member
      · exact unmentioned entries given e member
          ⟨registered, (Registry.bareName_eq_iff registered).mp bare⟩
    have settled := lookup_withEntries settled rule.name
    rw [none] at settled
    rw [settingFor, settled, lookup_presetSettings registered]
    cases names with
    | nil => rfl
    | cons name rest =>
      obtain rfl := known name List.mem_cons_self
      simp
  · exact enabledRules_eq config

theorem ofValue_object (members : Members) : ofValue (.object members) = ofTable members := by
  cases members <;> rfl

theorem Reports.not_isRefusal_iff {members : Members} {error : ConfigError}
    (reports : Reports members error) : ¬ error.IsRefusal ↔ BrokenOff members := by
  rw [← ofTable_fault_iff]
  have stopped := ofTable_error_iff.mpr reports
  constructor
  · intro other
    obtain ⟨fault, rfl⟩ := reports.ofEntry.resolve_left other
    exact ⟨fault, stopped⟩
  · rintro ⟨fault, broken⟩
    rw [stopped, Except.error.injEq] at broken
    subst broken
    exact id

omit [Host] in
theorem enabledRules_nodup (config : Configuration) :
    (config.enabledRules.map (·.1.name)).Nodup := by
  have sublist : (config.enabledRules.map (·.1.name)).Sublist
      (Registry.standard.rules.map (·.name)) := by
    rw [enabledRules_eq]
    have kept := List.Sublist.map (·.1.name) (List.filter_sublist (p := (·.2.isEnabled))
      (l := Registry.standard.rules.map fun rule => (rule, config.settingFor rule.name)))
    rwa [List.map_map] at kept
  exact Registry.standard_names_nodup.sublist sublist

/-- An object makes a configuration unless something is wrong with it. The error of what is wrong
first is told, and it is a refusal unless a value that it would show cannot be shown. The
configuration follows the object, and no rule of it runs twice. -/
theorem ofValue_object_resolves (members : Members) :
    ((∃ error, ofValue (.object members) = .error error) ↔ Faulty members) ∧
    (∀ error, ofValue (.object members) = .error error ↔ Reports members error) ∧
    (∀ error, Reports members error → (¬ error.IsRefusal ↔ BrokenOff members)) ∧
    ∀ config, ofValue (.object members) = .ok config →
      Follows members config ∧ (config.enabledRules.map (·.1.name)).Nodup := by
  rw [ofValue_object]
  refine ⟨ofTable_stops_iff, fun error => ofTable_error_iff,
    fun error reports => reports.not_isRefusal_iff, fun config made => ?_⟩
  exact ⟨follows_of_ofTable made, config.enabledRules_nodup⟩

end

def nestedObjects : Nat → Value
  | 0 => .object []
  | depth + 1 => .object [("a", nestedObjects depth)]

theorem checkWritable_nestedObjects (depth : Nat) :
    (nestedObjects depth).checkWritable depth = .error .tooDeep := by
  induction depth with
  | zero => rfl
  | succ depth ih =>
    simp [nestedObjects, Value.checkWritable, Value.checkMembers, ih, Bind.bind, Except.bind]

theorem namesNothing_nestedObjects (depth : Nat) :
    NamesNothing [("extends", nestedObjects depth)] (nestedObjects depth) := by
  refine ⟨rfl, ?_, ?_⟩
  · cases depth <;> nofun
  · rintro ⟨items, same, -⟩
    cases depth <;> cases same

theorem nestedObjects_not_showable [Host] (levels : Nat) :
    ¬ (nestedObjects levels).Showable levels := by
  apply Value.not_showable_iff.mpr
  refine ⟨.tooDeep, bind_error_iff.mpr (.inl ?_)⟩
  exact checkWritable_nestedObjects levels

/-- On no machine is every error a refusal: what a table extends may be nested too deeply to be
shown. -/
theorem not_only_refusals : ¬ ∃ _ : Host, ∀ (members : Members) (error : ConfigError),
    ofValue (.object members) = .error error → error.IsRefusal := by
  rintro ⟨host, claim⟩
  obtain ⟨fault, stopped⟩ := ofTable_fault_iff.mpr
    (.nameless (namesNothing_nestedObjects Host.presetLevels) (nestedObjects_not_showable _))
  rw [← ofValue_object] at stopped
  exact claim _ _ stopped

end TreeLint.Configuration
