import TreeLint.Proofs.Layering
import TreeLint.Proofs.Resolution

/-! Laws of layers. Two layers that follow each other are one layer with the entries of both, and a
layer leaves alone every rule that none of its keys resolves to: although the whole table is read
anew, the entries for such a rule keep their order, so the same one settles it. -/

namespace TreeLint.Configuration

section

variable [Host] {config new : Configuration} {overrides : Members} {name : String}

theorem withOverrides_of_entries {earlier : Members}
    (listed : ruleEntries config.table = .ok earlier) (overrides : Members) :
    config.withOverrides overrides =
      ofTable (Table.put config.table "rules" (.object (Table.putAll earlier overrides))) := by
  rw [withOverrides, listed, ok_bind]

/-- Two layers in turn come to the same as one layer of the entries of both, in which a repeated key
keeps its first place and its last value: the same table with its entries in the same order, the
same settings, or the same error. -/
theorem withOverrides_withOverrides {config between : Configuration} {first : Members}
    (laid : config.withOverrides first = .ok between) (second : Members) :
    between.withOverrides second = config.withOverrides (Table.ofEntries (first ++ second)) := by
  obtain ⟨earlier, names, listed, table, -, -⟩ := withOverrides_ok_iff.mp laid
  have relisted : ruleEntries between.table = .ok (Table.putAll earlier first) := by
    rw [table, ruleEntries_put]
  rw [withOverrides_of_entries relisted, withOverrides_of_entries listed, table, Table.put_put,
    Table.putAll_ofEntries, Table.putAll_append]

end

/-- Overrides that set a rule again in the spelling in use, and in the other one. -/
def switchedBack : Members :=
  [("eslint-frontend-rules/no-default-export", .str "warn"), ("no-default-export", .str "error")]

attribute [local instance] Host.usual in
theorem withOverrides_switchedBack : ∃ config between : Configuration,
    ofValue (.object spelledTwice) = .ok config ∧
    config.withOverrides switchedOff = .ok between ∧
    between.withOverrides switchedBack =
      config.withOverrides (Table.ofEntries (switchedOff ++ switchedBack)) ∧
    ((between.withOverrides switchedBack).toOption.map
      fun new => (new.settingFor "no-default-export").severity) = some .warn := by
  have severity : (do
      let config ← ofValue (.object spelledTwice)
      let between ← config.withOverrides switchedOff
      let new ← between.withOverrides switchedBack
      return (new.settingFor "no-default-export").severity).toOption = some Severity.warn := by
    decide +kernel
  rw [toOption_eq_some_iff] at severity
  obtain ⟨config, made, read⟩ := bind_ok_iff.mp severity
  obtain ⟨between, laid, read⟩ := bind_ok_iff.mp read
  obtain ⟨new, again, read⟩ := bind_ok_iff.mp read
  refine ⟨config, between, made, laid, withOverrides_withOverrides laid switchedBack, ?_⟩
  rw [again]
  exact congrArg some (Except.ok.inj read)

section

variable [Host] {config new : Configuration} {overrides : Members} {name : String}

/-- Some key of the overrides resolves to a rule of the name. -/
def touches (overrides : Members) (name : String) : Bool :=
  overrides.any fun e => match Registry.standard.resolve e.1 with
    | .ok rule => rule.name == name
    | .error _ => false

omit [Host] in
theorem touches_of_names {e : String × Value} (member : e ∈ overrides) {rule : Rule}
    (names : Registry.Names e.1 rule) : touches overrides rule.name = true := by
  refine List.any_eq_true.mpr ⟨e, member, ?_⟩
  simp [Registry.resolve_ok_iff.mpr names]

omit [Host] in
theorem lastFor_put_of_ne {table : Members} {key : String} (differs : Registry.bareName key ≠ name)
    (value : Value) : lastFor name (Table.put table key value) = lastFor name table := by
  induction table with
  | nil => simp [Table.put, lastFor, differs]
  | cons first rest ih =>
    by_cases here : first.1 = key
    · simp [Table.put, here, lastFor_cons, differs]
    · simp only [Table.put, here, if_false, lastFor_cons, ih]

omit [Host] in
theorem lastFor_putAll_of_ne (earlier : Members)
    (differ : ∀ e ∈ overrides, Registry.bareName e.1 ≠ name) :
    lastFor name (Table.putAll earlier overrides) = lastFor name earlier := by
  induction overrides generalizing earlier with
  | nil => rfl
  | cons e rest ih =>
    obtain ⟨here, others⟩ := List.forall_mem_cons.mp differ
    rw [Table.putAll_cons, ih _ others, lastFor_put_of_ne here]

/-- The last entry for a rule and the settings before decide what entries make of the rule. -/
theorem lookup_withEntries_congr {settings final other : List (String × RuleSetting)}
    {entries others : Members} (made : withEntries settings entries = .ok final)
    (too : withEntries settings others = .ok other)
    (same : lastFor name entries = lastFor name others) :
    final.lookup name = other.lookup name := by
  have here := lookup_withEntries made name
  have there := lookup_withEntries too name
  rw [← same] at there
  cases last : lastFor name entries with
  | none =>
    rw [last] at here there
    exact here.trans there.symm
  | some e =>
    rw [last] at here there
    obtain ⟨rule, setting, resolved, -, given, stored⟩ := here
    obtain ⟨_, _, again, -, likewise, kept⟩ := there
    rw [resolved, Except.ok.injEq] at again
    subst again
    rw [given, Except.ok.injEq] at likewise
    rw [stored, kept, likewise]

theorem presets_put_rules (table : Members) (value : Value) :
    presets (Table.put table "rules" value) = presets table := by
  simp [presets, presetNames, Table.lookup_put]

theorem table_of_ofTable {table : Members} (made : ofTable table = .ok config) :
    config.table = table := by
  obtain ⟨names, entries, -, -, same, -⟩ := ofTable_ok_iff.mp made
  exact same

/-- A configuration that is reached is the one that its own table makes. -/
theorem Reached.ofTable_table (reached : config.Reached) : ofTable config.table = .ok config := by
  cases reached with
  | start _ made =>
    rw [ofValue_object] at made
    rwa [table_of_ofTable made]
  | layer _ _ laid =>
    obtain ⟨earlier, -, made⟩ := bind_ok_iff.mp laid
    rwa [table_of_ofTable made]

/-- Every override is read, so a key with the bare name of a rule resolves to it. -/
theorem bareName_ne_of_not_touches (laid : config.withOverrides overrides = .ok new)
    (untouched : touches overrides name = false) :
    ∀ e ∈ overrides, Registry.bareName e.1 ≠ name := by
  obtain ⟨earlier, names, -, -, -, made⟩ := withOverrides_ok_iff.mp laid
  intro e member bare
  have present : e.1 ∈ (Table.putAll earlier overrides).map (·.1) :=
    Table.mem_keys_putAll.mpr (.inl (List.mem_map_of_mem member))
  obtain ⟨held, among, same⟩ := List.mem_map.mp present
  have settled := lookup_withEntries made name
  cases last : lastFor name (Table.putAll earlier overrides) with
  | none => exact lastFor_eq_none_iff.mp last held among (same ▸ bare)
  | some winner =>
    rw [last] at settled
    obtain ⟨rule, setting, resolved, rfl, -⟩ := settled
    have known := Registry.mem_of_resolve resolved
    have touched := touches_of_names member ⟨known, (Registry.bareName_eq_iff known).mp bare⟩
    rw [untouched] at touched
    cases touched

theorem settingFor_of_not_touches (reached : config.Reached)
    (laid : config.withOverrides overrides = .ok new) (untouched : touches overrides name = false) :
    new.settingFor name = config.settingFor name := by
  have differ := bareName_ne_of_not_touches laid untouched
  obtain ⟨earlier, names, listed, table, extended, made⟩ := withOverrides_ok_iff.mp laid
  obtain ⟨others, entries, existing, held, -, settled⟩ := ofTable_ok_iff.mp reached.ofTable_table
  rw [listed, Except.ok.injEq] at held
  subst held
  rw [table, presets_put_rules, existing, Except.ok.injEq] at extended
  subst extended
  rw [settingFor, settingFor, lookup_withEntries_congr made settled (lastFor_putAll_of_ne _ differ)]

omit [Host] in
theorem filter_enabledRules (config : Configuration) (p : Rule → Bool) :
    config.enabledRules.filter (fun entry => p entry.1) =
      ((Registry.standard.rules.filter p).map fun rule => (rule, config.settingFor rule.name)).filter
        (·.2.isEnabled) := by
  rw [enabledRules_eq, List.filter_comm, List.filter_map]
  rfl

/-- A layer leaves the setting of every rule alone that none of its keys resolves to, and of the
rules that run, those are the same ones in the same order. -/
theorem withOverrides_frame (reached : config.Reached)
    (laid : config.withOverrides overrides = .ok new) :
    (∀ name, touches overrides name = false → new.settingFor name = config.settingFor name) ∧
    new.enabledRules.filter (fun entry => !touches overrides entry.1.name) =
      config.enabledRules.filter (fun entry => !touches overrides entry.1.name) := by
  have same : ∀ name, touches overrides name = false →
      new.settingFor name = config.settingFor name :=
    fun name untouched => settingFor_of_not_touches reached laid untouched
  refine ⟨same, ?_⟩
  rw [filter_enabledRules new fun rule => !touches overrides rule.name,
    filter_enabledRules config fun rule => !touches overrides rule.name]
  congr 1
  refine List.map_congr_left fun rule member => ?_
  have untouched : touches overrides rule.name = false := by
    simpa using (List.mem_filter.mp member).2
  rw [same rule.name untouched]

end

/-- A table that sets one rule in both spellings, on top of the recommended severities. -/
def fragmentTable : Members :=
  [("rules", .object [("no-unnecessary-fragment", .str "error"),
    ("eslint-frontend-rules/no-unnecessary-fragment", .str "off")])]

theorem fragmentTable_distinct : (Value.object fragmentTable).Distinct := by
  refine .object (by decide) (List.forall_mem_singleton.mpr (.object (by decide) ?_))
  simp only [List.forall_mem_cons, List.not_mem_nil, false_implies, implies_true, and_true]
  exact ⟨.str _, .str _⟩

attribute [local instance] Host.usual in
/-- The layer switches off one of the eighteen rules that run, and the rule that the table switched
off stays off. -/
theorem withOverrides_frame_fragment : ∃ config new : Configuration, config.Reached ∧
    config.withOverrides switchedOff = .ok new ∧
    config.enabledRules.length = 18 ∧ new.enabledRules.length = 17 ∧
    (∀ name, touches switchedOff name = false → new.settingFor name = config.settingFor name) ∧
    new.enabledRules.filter (fun entry => !touches switchedOff entry.1.name) =
      config.enabledRules.filter (fun entry => !touches switchedOff entry.1.name) := by
  have lengths : (do
      let config ← ofValue (.object fragmentTable)
      let new ← config.withOverrides switchedOff
      return (config.enabledRules.length, new.enabledRules.length)).toOption = some (18, 17) := by
    decide +kernel
  rw [toOption_eq_some_iff] at lengths
  obtain ⟨config, made, read⟩ := bind_ok_iff.mp lengths
  obtain ⟨new, laid, read⟩ := bind_ok_iff.mp read
  obtain ⟨before, after⟩ := Prod.mk.inj (Except.ok.inj read)
  have reached : config.Reached := .start fragmentTable_distinct made
  obtain ⟨kept, enabled⟩ := withOverrides_frame reached laid
  exact ⟨config, new, reached, laid, before, after, kept, enabled⟩

end TreeLint.Configuration
