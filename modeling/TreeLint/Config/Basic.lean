import TreeLint.Config.Options
import TreeLint.Config.Table
import TreeLint.Registry

/-! Configurations: which rules run, at which severity and with which options. A configuration is
made from a table that names presets and gives a setting for single rules; every option is checked
here, so that no rule meets one of another shape. -/

namespace TreeLint

structure RuleSetting where
  severity : Severity
  options : List Value

def RuleSetting.isEnabled (setting : RuleSetting) : Bool := setting.severity != .off

/-- A table that was understood, with the settings that it makes. -/
structure Configuration where
  table : Members
  settings : List (String × RuleSetting)

namespace Configuration

variable [Host]

def presetNames (table : Members) : Except ConfigError (List String) :=
  let refused := fun (v : Value) => match v.shown Host.presetLevels with
    | .ok written => .error (.invalidSetting "*" (.extendsNotNames written))
    | .error fault => .error (.fault fault)
  match table.lookup "extends" with
  | none => .ok [Registry.presetName]
  | some (.str name) => .ok [name]
  | some (.list items) =>
    if items.all (·.string?.isSome) then .ok (items.filterMap Value.string?)
    else refused (.list items)
  | some v => refused v

/-- The presets of a table, each of which must exist. -/
def presets (table : Members) : Except ConfigError (List String) := do
  let names ← presetNames table
  match names.find? (· != Registry.presetName) with
  | some name => .error (.invalidSetting "*" (.unknownPreset name))
  | none => return names

def checkOptions (rule : Rule) : Nat → List OptionsSchema → List Value →
    Except ConfigError Unit
  | number, schema :: schemas, option :: options => match schema.firstError? option with
    | .error fault => .error (.fault fault)
    | .ok (some (place, error)) => .error (.invalidSetting rule.name (.badOption number place error))
    | .ok none => checkOptions rule (number + 1) schemas options
  | _, _, _ => .ok ()

def severityOf (rule : Rule) (named : Value) : Except ConfigError Severity :=
  match Severity.ofValue named with
  | .ok severity => .ok severity
  | .error (.unshowable .tooDeep) => .error (.fault .tooDeep)
  | .error error => .error (.invalidSetting rule.name (.severity error))

/-- The setting that an entry makes: a severity, or a list of a severity and options. -/
def settingOf (rule : Rule) (entry : Value) : Except ConfigError RuleSetting := do
  let (named, options) ← match entry with
    | .list [] => .error (.invalidSetting rule.name .emptyList)
    | .list (first :: options) => .ok (first, options)
    | v => .ok (v, [])
  let severity ← severityOf rule named
  let most := rule.info.schema.length
  if most < options.length then
    .error (.invalidSetting rule.name (.tooManyOptions most options.length))
  checkOptions rule 0 rule.info.schema options
  return ⟨severity, options⟩

def readEntry (key : String) (entry : Value) : Except ConfigError (String × RuleSetting) := do
  let rule ← Registry.standard.resolve key
  return (rule.name, ← settingOf rule entry)

/-- The settings after those that entries make for single rules. -/
def withEntries : List (String × RuleSetting) → List (String × Value) →
    Except ConfigError (List (String × RuleSetting))
  | settings, [] => .ok settings
  | settings, (key, entry) :: rest => do
    let (name, setting) ← readEntry key entry
    withEntries (Table.put settings name setting) rest

def presetSettings (names : List String) : List (String × RuleSetting) :=
  if names.isEmpty then []
  else Registry.standard.recommended.map fun (key, severity) =>
    (Registry.bareName key, ⟨severity, []⟩)

def ruleEntries (table : Members) : Except ConfigError (List (String × Value)) :=
  match table.lookup "rules" with
  | none => .ok []
  | some (.object members) => .ok members
  | some _ => .error (.invalidSetting "*" .rulesNotTable)

def ofTable (table : Members) : Except ConfigError Configuration := do
  let settings := presetSettings (← presets table)
  let entries ← ruleEntries table
  return { table, settings := ← withEntries settings entries }

/-- The configuration that a value makes; one that is not truthy counts as the empty table. -/
def ofValue (v : Value) : Except ConfigError Configuration := do
  if v.isTruthy then ofTable (← tableOf Value.keyText v) else ofTable []

/-- The setting of a rule; a rule that nothing mentions is off. -/
def settingFor (config : Configuration) (name : String) : RuleSetting :=
  (config.settings.lookup name).getD ⟨.off, []⟩

/-- The rules that run, in the order of the registry. -/
def enabledRules (config : Configuration) : List (Rule × RuleSetting) :=
  Registry.standard.rules.filterMap fun rule =>
    match config.settings.lookup rule.name with
    | some setting => if setting.isEnabled then some (rule, setting) else none
    | none => none

def withOverrides (config : Configuration) (overrides : List (String × Value)) :
    Except ConfigError Configuration := do
  let entries ← ruleEntries config.table
  ofTable (Table.put config.table "rules" (.object (Table.putAll entries overrides)))

end Configuration

end TreeLint
