import TreeLint.Config.Error
import TreeLint.Rule.Basic

/-! The check of options against the schema of a rule: an object with lists of texts under the keys
that the schema names. -/

namespace TreeLint.OptionsSchema

variable [Host]

def itemErrors (key : String) : Nat → List Value → Read (List (OptionPlace × OptionError))
  | _, [] => .ok []
  | i, .str _ :: rest => itemErrors key (i + 1) rest
  | i, item :: rest => do
    let error := (.item key i, .wrongType (← item.shown (Host.optionLevels 2)) "string")
    return error :: (← itemErrors key (i + 1) rest)

def propertyErrors (key : String) : Value → Read (List (OptionPlace × OptionError))
  | .list items => itemErrors key 0 items
  | v => do
    return [(.property key, .wrongType (← v.shown (Host.optionLevels 1)) "array")]

def hasProperty (schema : OptionsSchema) (key : String) : Bool :=
  schema.properties.any (·.1 == key)

/-- The keys of an object that the schema does not name, in ascending order. -/
def unexpectedKeys (schema : OptionsSchema) (members : Members) : List String :=
  ((members.map (·.1)).filter (!schema.hasProperty ·)).mergeSort Host.precedes

/-- What is wrong with the properties that a schema names, in its order. -/
def namedErrors (members : Members) : List (String × Members) →
    Read (List (OptionPlace × OptionError))
  | [] => .ok []
  | (key, _) :: rest => do
    let errors ← match members.lookup key with
      | some v => propertyErrors key v
      | none => pure []
    return errors ++ (← namedErrors members rest)

def errors (schema : OptionsSchema) : Value → Read (List (OptionPlace × OptionError))
  | .object members => do
    let errors ← namedErrors members schema.properties
    return errors ++ match schema.unexpectedKeys members with
      | [] => []
      | keys => [(.whole, .unexpected keys)]
  | v => do return [(.whole, .wrongType (← v.shown (Host.optionLevels 0)) "object")]

/-- The error of an option that is told: the first one by place. -/
def firstError? (schema : OptionsSchema) (option : Value) :
    Read (Option (OptionPlace × OptionError)) := do
  return ((← schema.errors option).mergeSort fun a b => a.1.isBefore b.1).head?

end TreeLint.OptionsSchema
