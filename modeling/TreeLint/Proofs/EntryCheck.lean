import TreeLint.Proofs.OptionCheck

/-! Entries for single rules. An entry makes a setting unless one of five things is wrong with it;
the first thing wrong is told, unless the message would show a value that cannot be shown. Of
several entries the first that is wrong is told. -/

namespace TreeLint

namespace Registry

/-- A key names a rule, with the namespace before the name or without it. -/
def Names (key : String) (rule : Rule) : Prop :=
  rule ∈ standard.rules ∧ (key = rule.name ∨ key = qualified rule.name)

theorem bareName_qualified (name : String) : bareName (qualified name) = name := by
  simp [bareName, qualified]

theorem qualified_bareName {key : String} (stripped : bareName key ≠ key) :
    qualified (bareName key) = key := by
  unfold bareName at stripped ⊢
  dsimp only at stripped ⊢
  split
  · rename_i marked
    obtain ⟨rest, split⟩ := List.isPrefixOf_iff_prefix.mp marked
    rw [← split, List.drop_left]
    apply String.toList_injective
    rw [← split]
    simp [qualified]
  · rename_i bare
    rw [if_neg bare] at stripped
    exact absurd rfl stripped

theorem bareName_standard : ∀ rule ∈ standard.rules, bareName rule.name = rule.name := by
  decide +kernel

theorem bareName_eq_iff {rule : Rule} (known : rule ∈ standard.rules) {key : String} :
    bareName key = rule.name ↔ key = rule.name ∨ key = qualified rule.name := by
  constructor
  · intro same
    by_cases stripped : bareName key = key
    · exact .inl (stripped ▸ same)
    · exact .inr (same ▸ (qualified_bareName stripped).symm)
  · rintro (rfl | rfl)
    · exact bareName_standard rule known
    · exact bareName_qualified rule.name

theorem Names.unique {key : String} {rule other : Rule} (names : Names key rule)
    (too : Names key other) : rule = other := by
  apply eq_of_name names.1 too.1
  rw [← (bareName_eq_iff names.1).mpr names.2, ← (bareName_eq_iff too.1).mpr too.2]

theorem resolve_ok_iff {key : String} {rule : Rule} :
    standard.resolve key = .ok rule ↔ Names key rule := by
  constructor
  · intro resolved
    have known := mem_of_resolve resolved
    exact ⟨known, (bareName_eq_iff known).mp (name_of_resolve resolved).symm⟩
  · intro names
    have bare := (bareName_eq_iff names.1).mpr names.2
    cases found : standard.rule? (bareName key) with
    | none =>
      have none := List.find?_eq_none.mp found rule names.1
      simp [bare] at none
    | some known =>
      have resolved : standard.resolve key = .ok known := by
        rw [resolve, found]
      have named : Names key known :=
        ⟨mem_of_resolve resolved,
          (bareName_eq_iff (mem_of_resolve resolved)).mp (name_of_resolve resolved).symm⟩
      rw [resolved, names.unique named]

theorem resolve_error_iff {key : String} {error : ConfigError} :
    standard.resolve key = .error error ↔ (∀ rule, ¬ Names key rule) ∧ error = .unknownRule key := by
  constructor
  · intro stopped
    constructor
    · intro rule names
      rw [resolve_ok_iff.mpr names] at stopped
      cases stopped
    · unfold resolve at stopped
      split at stopped
      · cases stopped
      · exact (Except.error.inj stopped).symm
  · rintro ⟨unnamed, rfl⟩
    cases resolved : standard.resolve key with
    | ok rule => exact absurd (resolve_ok_iff.mp resolved) (unnamed rule)
    | error error =>
      unfold resolve at resolved
      split at resolved
      · cases resolved
      · rw [← resolved]

end Registry

/-- The error is one of the configuration, and no fault that was met on the way. -/
def ConfigError.IsRefusal : ConfigError → Prop
  | .unknownRule _ | .invalidSetting _ _ => True
  | .notTable | .notPair _ _ | .fault _ => False

/-- The error is a refusal, or a fault that was met on the way to one. -/
def ConfigError.OfEntry (error : ConfigError) : Prop :=
  error.IsRefusal ∨ ∃ fault, error = .fault fault

namespace Configuration

variable [Host]

/-- The severity that an entry names, and the options after it. -/
def partsOf : Value → Option (Value × List Value)
  | .list [] => none
  | .list (named :: options) => some (named, options)
  | named => some (named, [])

omit [Host] in
theorem partsOf_eq_none_iff {entry : Value} : partsOf entry = none ↔ entry = .list [] := by
  unfold partsOf
  split
  · simp
  · simp
  · rename_i other _
    constructor
    · nofun
    · intro empty
      exact absurd empty other

/-- An entry is no setting of the rule that its key names. -/
inductive Unusable (key : String) (entry : Value) : Prop
  | unnamed : (∀ rule, ¬ Registry.Names key rule) → Unusable key entry
  | empty : entry = .list [] → Unusable key entry
  | severity {named : Value} {options : List Value} {invalid : Severity.Invalid} :
      partsOf entry = some (named, options) → Severity.ofValue named = .error invalid →
      Unusable key entry
  | many {rule : Rule} {named : Value} {options : List Value} : Registry.Names key rule →
      partsOf entry = some (named, options) → rule.info.schema.length < options.length →
      Unusable key entry
  | option {rule : Rule} {named : Value} {options : List Value} {schema : OptionsSchema}
      {option : Value} : Registry.Names key rule → partsOf entry = some (named, options) →
      (schema, option) ∈ rule.info.schema.zip options → ¬ schema.Admits option →
      Unusable key entry

/-- Of pairs of a schema and an option, the first that do not fit have a part of a wrong type that
cannot be shown. -/
inductive Hides : List (OptionsSchema × Value) → Prop
  | here {schema : OptionsSchema} {option part : Value} {steps : Nat}
      {rest : List (OptionsSchema × Value)} : schema.Misfit option steps part →
      OptionsSchema.Hidden steps part → Hides ((schema, option) :: rest)
  | later {schema : OptionsSchema} {option : Value} {rest : List (OptionsSchema × Value)} :
      schema.Admits option → Hides rest → Hides ((schema, option) :: rest)

/-- A value that is no text, and that is nested too deeply to be shown where a severity should be. -/
structure TooDeep (named : Value) : Prop where
  other : ∀ text, named ≠ .str text
  deep : named.shown Host.severityLevels = .error .tooDeep

/-- What is wrong first with an entry is a value that the error would show and that cannot be
shown: a severity, of which too deep ones alone count, or a part of an option. -/
inductive Untellable (key : String) (entry : Value) : Prop
  | severity {rule : Rule} {named : Value} {options : List Value} {invalid : Severity.Invalid} :
      Registry.Names key rule → partsOf entry = some (named, options) →
      Severity.ofValue named = .error invalid → TooDeep named → Untellable key entry
  | option {rule : Rule} {named : Value} {options : List Value} {severity : Severity} :
      Registry.Names key rule → partsOf entry = some (named, options) →
      Severity.ofValue named = .ok severity → options.length ≤ rule.info.schema.length →
      Hides (rule.info.schema.zip options) → Untellable key entry

section

variable {rule : Rule} {key : String} {entry named : Value} {options : List Value}
  {error : ConfigError}

theorem settingOf_of_parts (parts : partsOf entry = some (named, options)) :
    settingOf rule entry = do
      let severity ← severityOf rule named
      if rule.info.schema.length < options.length then
        .error (.invalidSetting rule.name (.tooManyOptions rule.info.schema.length options.length))
      checkOptions rule 0 rule.info.schema options
      return ⟨severity, options⟩ := by
  cases entry with
  | list items =>
    cases items with
    | nil => cases parts
    | cons first rest =>
      cases parts
      simp only [settingOf, ok_bind]
  | _ =>
    cases parts
    simp only [settingOf, ok_bind]

theorem severityOf_error_iff : severityOf rule named = .error error ↔
    ∃ invalid, Severity.ofValue named = .error invalid ∧
      error = if invalid = .unshowable .tooDeep then .fault .tooDeep
        else .invalidSetting rule.name (.severity invalid) := by
  unfold severityOf
  split
  · rename_i severity given
    simp [given]
  · rename_i given
    simp [given, eq_comm]
  · rename_i invalid shallow given
    have other : invalid ≠ .unshowable .tooDeep := shallow
    simp [given, other, eq_comm]

theorem checkOptions_ok_iff {number : Nat} {schemas : List OptionsSchema} :
    checkOptions rule number schemas options = .ok () ↔
      ∀ pair ∈ schemas.zip options, pair.1.Admits pair.2 := by
  constructor
  · exact admits_of_checkOptions
  · intro fits
    fun_induction checkOptions rule number schemas options with
    | case1 number schema schemas option options fault stopped =>
      have here := fits (schema, option) List.mem_cons_self
      rw [OptionsSchema.firstError?_none_iff.mpr here] at stopped
      cases stopped
    | case2 number schema schemas option options place problem told =>
      have here := fits (schema, option) List.mem_cons_self
      rw [OptionsSchema.firstError?_none_iff.mpr here] at told
      cases told
    | case3 number schema schemas option options _ ih =>
      exact ih fun pair later => fits pair (List.mem_cons_of_mem _ later)
    | case4 => rfl

theorem checkOptions_failsOnly (number : Nat) (schemas : List OptionsSchema)
    (options : List Value) :
    FailsOnly ConfigError.OfEntry (checkOptions rule number schemas options) := by
  fun_induction checkOptions rule number schemas options with
  | case1 number schema schemas option options fault => exact failsOnly_error (.inr ⟨fault, rfl⟩)
  | case2 => exact failsOnly_error (.inl trivial)
  | case3 number schema schemas option options _ ih => exact ih
  | case4 => exact failsOnly_ok _

theorem checkOptions_fault_iff {number : Nat} {schemas : List OptionsSchema} :
    (∃ fault, checkOptions rule number schemas options = .error (.fault fault)) ↔
      Hides (schemas.zip options) := by
  fun_induction checkOptions rule number schemas options with
  | case1 number schema schemas option options fault stopped =>
    obtain ⟨steps, part, misfit, hidden⟩ := OptionsSchema.firstError?_error stopped
    constructor
    · intro _
      exact .here misfit hidden
    · intro _
      exact ⟨fault, rfl⟩
  | case2 number schema schemas option options place problem told =>
    constructor
    · rintro ⟨fault, stopped⟩
      cases stopped
    · intro hides
      cases hides with
      | here misfit hidden =>
        exact absurd hidden (OptionsSchema.showable_of_firstError? told misfit)
      | later admits =>
        rw [OptionsSchema.firstError?_none_iff.mpr admits] at told
        cases told
  | case3 number schema schemas option options clean ih =>
    have admits := OptionsSchema.firstError?_none_iff.mp clean
    constructor
    · intro stopped
      exact .later admits (ih.mp stopped)
    · intro hides
      cases hides with
      | here misfit => exact absurd misfit admits.not_misfit
      | later _ hides => exact ih.mpr hides
  | case4 schemas number options ends =>
    constructor
    · rintro ⟨fault, stopped⟩
      cases stopped
    · intro hides
      cases schemas with
      | nil => cases hides
      | cons schema schemas =>
        cases options with
        | nil => cases hides
        | cons option options => exact (ends schema schemas option options rfl rfl).elim

theorem severityOf_failsOnly (rule : Rule) (named : Value) :
    FailsOnly ConfigError.OfEntry (severityOf rule named) := by
  intro error stopped
  obtain ⟨invalid, -, rfl⟩ := severityOf_error_iff.mp stopped
  split
  · exact .inr ⟨.tooDeep, rfl⟩
  · exact .inl trivial

theorem tooDeep_of_severity {invalid : Severity.Invalid}
    (rejected : Severity.ofValue named = .error invalid) :
    invalid = .unshowable .tooDeep ↔ TooDeep named := by
  have other (v : Value) : Severity.Invalid.ofValue v = .unshowable .tooDeep ↔
      v.shown Host.severityLevels = .error .tooDeep := by
    unfold Severity.Invalid.ofValue
    split <;> simp_all
  unfold Severity.ofValue at rejected
  split at rejected
  · rename_i text
    dsimp only at rejected
    split at rejected
    · cases rejected
    · obtain rfl := Except.error.inj rejected
      constructor
      · nofun
      · rintro ⟨different, -⟩
        exact absurd rfl (different text)
  · split at rejected
    · cases rejected
    · obtain rfl := Except.error.inj rejected
      rw [other]
      exact ⟨fun deep => ⟨nofun, deep⟩, (·.deep)⟩
  · rename_i different _
    obtain rfl := Except.error.inj rejected
    rw [other]
    exact ⟨fun deep => ⟨different, deep⟩, (·.deep)⟩

theorem severityOf_fault_iff : (∃ fault, severityOf rule named = .error (.fault fault)) ↔
    ∃ invalid, Severity.ofValue named = .error invalid ∧ TooDeep named := by
  constructor
  · rintro ⟨fault, stopped⟩
    obtain ⟨invalid, rejected, same⟩ := severityOf_error_iff.mp stopped
    refine ⟨invalid, rejected, (tooDeep_of_severity rejected).mp ?_⟩
    by_contra shallow
    rw [if_neg shallow] at same
    cases same
  · rintro ⟨invalid, rejected, deep⟩
    refine ⟨.tooDeep, severityOf_error_iff.mpr ⟨invalid, rejected, ?_⟩⟩
    rw [if_pos ((tooDeep_of_severity rejected).mpr deep)]

theorem settingOf_empty : settingOf rule (.list []) =
    .error (.invalidSetting rule.name .emptyList) := rfl

/-- An entry makes a setting of the severity and the options that it gives, if the severity is one
and the rule takes the options. -/
theorem settingOf_ok_iff {setting : RuleSetting} : settingOf rule entry = .ok setting ↔
    ∃ named, partsOf entry = some (named, setting.options) ∧
      Severity.ofValue named = .ok setting.severity ∧ rule.info.Takes setting.options := by
  constructor
  · intro made
    cases parts : partsOf entry with
    | none =>
      rw [partsOf_eq_none_iff.mp parts, settingOf_empty] at made
      cases made
    | some given =>
      obtain ⟨named, options⟩ := given
      rw [settingOf_of_parts parts] at made
      obtain ⟨severity, given, made⟩ := bind_ok_iff.mp made
      by_cases more : rule.info.schema.length < options.length
      · rw [if_pos more] at made
        cases made
      · rw [if_neg more] at made
        obtain ⟨_, checked, made⟩ := bind_ok_iff.mp made
        cases made
        exact ⟨named, rfl, severityOf_ok_iff.mp given, Nat.le_of_not_lt more,
          checkOptions_ok_iff.mp checked⟩
  · rintro ⟨named, parts, given, few, fits⟩
    rw [settingOf_of_parts parts]
    simp [severityOf_ok_iff.mpr given, checkOptions_ok_iff.mpr fits, Nat.not_lt.mpr few,
      Bind.bind, Except.bind, Pure.pure, Except.pure]

theorem settingOf_failsOnly (rule : Rule) (entry : Value) :
    FailsOnly ConfigError.OfEntry (settingOf rule entry) := by
  cases parts : partsOf entry with
  | none =>
    rw [partsOf_eq_none_iff.mp parts, settingOf_empty]
    exact failsOnly_error (.inl trivial)
  | some given =>
    rw [settingOf_of_parts parts, failsOnly_bind]
    refine ⟨severityOf_failsOnly rule given.1, fun severity _ => ?_⟩
    split
    · exact failsOnly_error (.inl trivial)
    · exact failsOnly_bind.mpr ⟨checkOptions_failsOnly 0 _ _, fun _ _ => failsOnly_ok _⟩

/-- A setting breaks off at a severity that cannot be shown, or else at such a part of an option. -/
theorem settingOf_fault_iff (parts : partsOf entry = some (named, options)) :
    (∃ fault, settingOf rule entry = .error (.fault fault)) ↔
      (∃ invalid, Severity.ofValue named = .error invalid ∧ TooDeep named) ∨
        ∃ severity, Severity.ofValue named = .ok severity ∧
          options.length ≤ rule.info.schema.length ∧ Hides (rule.info.schema.zip options) := by
  rw [settingOf_of_parts parts]
  constructor
  · rintro ⟨fault, stopped⟩
    rcases bind_error_iff.mp stopped with rejected | ⟨severity, given, stopped⟩
    · exact .inl (severityOf_fault_iff.mp ⟨fault, rejected⟩)
    · by_cases more : rule.info.schema.length < options.length
      · rw [if_pos more] at stopped
        cases stopped
      · rw [if_neg more] at stopped
        rcases bind_error_iff.mp stopped with stopped | ⟨_, -, made⟩
        · exact .inr ⟨severity, severityOf_ok_iff.mp given, Nat.le_of_not_lt more,
            checkOptions_fault_iff.mp ⟨fault, stopped⟩⟩
        · cases made
  · rintro (rejected | ⟨severity, given, few, hides⟩)
    · obtain ⟨fault, stopped⟩ := severityOf_fault_iff.mpr rejected
      exact ⟨fault, bind_error_iff.mpr (.inl stopped)⟩
    · obtain ⟨fault, stopped⟩ := checkOptions_fault_iff.mpr hides
      refine ⟨fault, bind_error_iff.mpr (.inr ⟨severity, severityOf_ok_iff.mpr given, ?_⟩)⟩
      rw [if_neg (Nat.not_lt.mpr few)]
      exact bind_error_iff.mpr (.inl stopped)

theorem usable_of_readEntry {settled : String × RuleSetting}
    (read : readEntry key entry = .ok settled) : ¬ Unusable key entry := by
  obtain ⟨rule, resolved, -, made⟩ := readEntry_ok_iff.mp read
  have names := Registry.resolve_ok_iff.mp resolved
  obtain ⟨named, parts, given, few, fits⟩ := settingOf_ok_iff.mp made
  intro unusable
  cases unusable with
  | unnamed none => exact none rule names
  | empty empty =>
    rw [partsOf_eq_none_iff.mpr empty] at parts
    cases parts
  | severity others rejected =>
    rw [others] at parts
    cases parts
    rw [given] at rejected
    cases rejected
  | many other others more =>
    rw [others] at parts
    cases parts
    rw [other.unique names] at more
    exact Nat.not_le.mpr more few
  | option other others member misfit =>
    rw [others] at parts
    cases parts
    rw [other.unique names] at member
    exact misfit (fits _ member)

theorem readEntry_error_iff : readEntry key entry = .error error ↔
    Registry.standard.resolve key = .error error ∨
      ∃ rule, Registry.standard.resolve key = .ok rule ∧ settingOf rule entry = .error error := by
  simp [readEntry, bind_error_iff, Pure.pure, Except.pure]

/-- An entry is refused or breaks off. -/
theorem readEntry_failsOnly (key : String) (entry : Value) :
    FailsOnly ConfigError.OfEntry (readEntry key entry) := by
  intro error stopped
  rcases readEntry_error_iff.mp stopped with unnamed | ⟨rule, -, stopped⟩
  · obtain ⟨-, rfl⟩ := Registry.resolve_error_iff.mp unnamed
    exact .inl trivial
  · exact settingOf_failsOnly rule entry error stopped

/-- An entry that none of the five things is wrong with makes a setting. -/
theorem readEntry_of_usable (usable : ¬ Unusable key entry) :
    ∃ settled, readEntry key entry = .ok settled := by
  cases resolved : Registry.standard.resolve key with
  | error error => exact absurd (.unnamed (Registry.resolve_error_iff.mp resolved).1) usable
  | ok rule =>
    have names := Registry.resolve_ok_iff.mp resolved
    cases parts : partsOf entry with
    | none => exact absurd (.empty (partsOf_eq_none_iff.mp parts)) usable
    | some given =>
      obtain ⟨named, options⟩ := given
      cases given : Severity.ofValue named with
      | error invalid => exact absurd (.severity parts given) usable
      | ok severity =>
        have few : options.length ≤ rule.info.schema.length := by
          by_contra more
          exact usable (.many names parts (Nat.lt_of_not_le more))
        have fits : ∀ pair ∈ rule.info.schema.zip options, pair.1.Admits pair.2 := by
          intro pair member
          by_contra misfit
          exact usable (.option names parts member misfit)
        have made : settingOf rule entry = .ok ⟨severity, options⟩ :=
          settingOf_ok_iff.mpr ⟨named, parts, given, few, fits⟩
        exact ⟨_, readEntry_ok_iff.mpr ⟨rule, resolved, rfl, made⟩⟩

/-- An entry makes no setting just when one of the five things is wrong with it. -/
theorem readEntry_stops_iff : (∃ error, readEntry key entry = .error error) ↔
    Unusable key entry := by
  constructor
  · rintro ⟨error, stopped⟩
    by_contra usable
    obtain ⟨settled, read⟩ := readEntry_of_usable usable
    rw [read] at stopped
    cases stopped
  · intro unusable
    cases read : readEntry key entry with
    | error error => exact ⟨error, rfl⟩
    | ok settled => exact absurd unusable (usable_of_readEntry read)

/-- An entry breaks off just when what is wrong first with it cannot be shown. -/
theorem readEntry_fault_iff : (∃ fault, readEntry key entry = .error (.fault fault)) ↔
    Untellable key entry := by
  have broken : (∃ fault, readEntry key entry = .error (.fault fault)) ↔
      ∃ rule, Registry.Names key rule ∧ ∃ fault, settingOf rule entry = .error (.fault fault) := by
    simp only [readEntry_error_iff, Registry.resolve_error_iff, Registry.resolve_ok_iff]
    constructor
    · rintro ⟨fault, ⟨-, other⟩ | ⟨rule, names, stopped⟩⟩
      · cases other
      · exact ⟨rule, names, fault, stopped⟩
    · rintro ⟨rule, names, fault, stopped⟩
      exact ⟨fault, .inr ⟨rule, names, stopped⟩⟩
  rw [broken]
  constructor
  · rintro ⟨rule, names, fault, stopped⟩
    cases parts : partsOf entry with
    | none =>
      rw [partsOf_eq_none_iff.mp parts, settingOf_empty] at stopped
      cases stopped
    | some given =>
      rcases (settingOf_fault_iff parts).mp ⟨fault, stopped⟩ with ⟨invalid, rejected, deep⟩ | later
      · exact .severity names parts rejected deep
      · obtain ⟨severity, given, few, hides⟩ := later
        exact .option names parts given few hides
  · intro untellable
    cases untellable with
    | severity names parts rejected deep =>
      exact ⟨_, names, (settingOf_fault_iff parts).mpr (.inl ⟨_, rejected, deep⟩)⟩
    | option names parts given few hides =>
      exact ⟨_, names, (settingOf_fault_iff parts).mpr (.inr ⟨_, given, few, hides⟩)⟩

/-- Entries fail at the first of them that is wrong. -/
theorem withEntries_error_iff {settings : List (String × RuleSetting)} {entries : Members} :
    withEntries settings entries = .error error ↔ ∃ before key entry after,
      entries = before ++ (key, entry) :: after ∧ (∀ e ∈ before, ¬ Unusable e.1 e.2) ∧
      readEntry key entry = .error error := by
  induction entries generalizing settings with
  | nil => simp [withEntries]
  | cons first rest ih =>
    obtain ⟨key, entry⟩ := first
    unfold withEntries
    cases read : readEntry key entry with
    | error other =>
      constructor
      · intro stopped
        cases stopped
        exact ⟨[], key, entry, rest, rfl, List.forall_mem_nil _, read⟩
      · rintro ⟨before, later, wrong, after, split, usable, stopped⟩
        cases before with
        | nil =>
          cases split
          rw [read] at stopped
          cases stopped
          rfl
        | cons e before =>
          -- the entry in front has failed already, so it cannot be one that is usable
          cases split
          exact absurd (readEntry_stops_iff.mp ⟨other, read⟩) (usable (key, entry) List.mem_cons_self)
    | ok settled =>
      rw [ok_bind, ih]
      constructor
      · rintro ⟨before, later, wrong, after, rfl, usable, stopped⟩
        exact ⟨(key, entry) :: before, later, wrong, after, rfl,
          List.forall_mem_cons.mpr ⟨usable_of_readEntry read, usable⟩, stopped⟩
      · rintro ⟨before, later, wrong, after, split, usable, stopped⟩
        cases before with
        | nil =>
          cases split
          rw [read] at stopped
          cases stopped
        | cons e before =>
          cases split
          exact ⟨before, later, wrong, after, rfl, fun e member => usable e (.tail _ member),
            stopped⟩

end

end Configuration

end TreeLint
