import TreeLint.Config.Error
import TreeLint.Value.Key
import TreeLint.Value.Whole

/-! Tables of a configuration. A table is given by an object, or by a sequence of pairs of a key and
a value. -/

namespace TreeLint.Configuration

/-- A pair of a sequence: the key, the value that was given for it, and the value of the key. -/
structure Pair where
  key : Key
  given : Value
  value : Value

/-- The pairs of a sequence, the first of which has the number `i`. -/
def pairsFrom (i : Nat) : List Value → Except ConfigError (List Pair)
  | [] => .ok []
  | item :: rest => match item.items with
    | .error _ => .error .notTable
    | .ok [given, value] => match given.key? with
      | none => .error .notTable
      | some key => do return ⟨key, given, value⟩ :: (← pairsFrom (i + 1) rest)
    | .ok parts => .error (.notPair i parts.length)

/-- The table that pairs make. A repeated key has the place and the text of its first pair and the
value of its last one. -/
def tableOfPairs (text : Value → String) (pairs : List Pair) : Members :=
  (Table.ofEntries (pairs.map fun pair => (pair.key, pair.value))).map fun (key, value) =>
    (((pairs.find? (·.key = key)).map fun first => text first.given).getD "", value)

/-- The table that a value gives, where `text` tells how keys are shown. -/
def tableOf (text : Value → String) : Value → Except ConfigError Members
  | .object members => .ok members
  | v => match v.items with
    | .error _ => .error .notTable
    | .ok items => do return tableOfPairs text (← pairsFrom 0 items)

end TreeLint.Configuration
