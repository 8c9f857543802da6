import TreeLint.Rule.Severity

/-! What can be wrong with a configuration, and the wording of each error. -/

namespace TreeLint

inductive OptionPlace where
  | whole
  | property (key : String)
  | item (key : String) (index : Nat)
  deriving DecidableEq

namespace OptionPlace

/-- The order in which errors are told: the object, then its properties by key, each before its
items. -/
def isBefore : OptionPlace → OptionPlace → Bool
  | whole, _ => true
  | _, whole => false
  | property a, property b => a ≤ b
  | property a, item b _ => a ≤ b
  | item a _, property b => a < b
  | item a i, item b j => a < b || (a == b && i ≤ j)

/-- The text of a place; the whole is told by the number of the option. -/
def text (number : Nat) : OptionPlace → String
  | whole => "option " ++ toString number
  | property key => key
  | item key index => key ++ "/" ++ toString index

end OptionPlace

inductive OptionError where
  /-- A value, in its written form, is not of the type that it should have. -/
  | wrongType (written type : String)
  /-- There are properties that the rule does not take. -/
  | unexpected (keys : List String)
  deriving DecidableEq

def OptionError.message (half? : Char → Option Nat) : OptionError → String
  | wrongType written type => written ++ " is not of type " ++ Text.quoted half? type
  | unexpected keys => "Additional properties are not allowed ("
      ++ ", ".intercalate (keys.map (Text.quoted half?))
      ++ (if keys.length = 1 then " was" else " were") ++ " unexpected)"

inductive SettingError where
  | rulesNotTable
  | extendsNotNames (written : String)
  | unknownPreset (name : String)
  | emptyList
  | severity (error : Severity.Invalid)
  | tooManyOptions (most given : Nat)
  | badOption (number : Nat) (place : OptionPlace) (error : OptionError)
  deriving DecidableEq

def SettingError.message? (half? : Char → Option Nat) : SettingError → Option String
  | rulesNotTable => some "'rules' must be a table of rule name -> setting"
  | extendsNotNames written => some ("'extends' must be a preset name or list, got " ++ written)
  | unknownPreset name => some ("unknown preset '" ++ name ++ "'")
  | emptyList => some "empty setting list"
  | severity error => error.message? half?
  | tooManyOptions most given =>
    some ("expected at most " ++ toString most ++ " option(s), got " ++ toString given)
  | badOption number place error => some (place.text number ++ ": " ++ error.message half?)

inductive ConfigError where
  /-- A key names no rule. -/
  | unknownRule (key : String)
  /-- A setting of a rule, or of all rules, cannot be used. -/
  | invalidSetting (rule : String) (error : SettingError)
  /-- What should be a table of entries is none. -/
  | notTable
  /-- What should be an entry has not two parts. -/
  | notPair (index length : Nat)
  /-- A value that is wrong cannot be shown. -/
  | fault (fault : Fault)
  deriving DecidableEq

def ConfigError.message? (half? : Char → Option Nat) : ConfigError → Option String
  | unknownRule key => some ("Unknown rule '" ++ key ++ "'.")
  | invalidSetting rule error =>
    (error.message? half?).map fun text => "Invalid configuration for rule '" ++ rule ++ "': " ++ text
  | notTable => none
  | notPair index length => some ("dictionary update sequence element #" ++ toString index
      ++ " has length " ++ toString length ++ "; 2 is required")
  | fault f => f.message? half?

end TreeLint
