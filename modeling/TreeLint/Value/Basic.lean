import TreeLint.Binary64.Basic
import TreeLint.Value.Moment

/-! Data values: what a JSON or TOML document holds. Objects keep the order of their members, since
the order of a node's fields and of a configuration's entries is observable. -/

namespace TreeLint

/-- A data value. Whole numbers are unbounded; numbers written with a point or an exponent are
binary. -/
inductive Value where
  | null
  | bool (b : Bool)
  | int (n : Int)
  | float (x : Binary64)
  | str (s : String)
  | moment (m : Moment)
  | list (items : List Value)
  | object (members : List (String × Value))
  deriving Inhabited

abbrev Members := List (String × Value)

namespace Table

/-- Set the entry of a key: in its old place if there is one, else at the end. -/
def put {κ α : Type} [DecidableEq κ] : List (κ × α) → κ → α → List (κ × α)
  | [], key, value => [(key, value)]
  | (k, v) :: rest, key, value =>
    if k = key then (key, value) :: rest else (k, v) :: put rest key value

def putAll {κ α : Type} [DecidableEq κ] (table : List (κ × α)) (entries : List (κ × α)) :
    List (κ × α) :=
  entries.foldl (fun t (k, v) => put t k v) table

/-- The table that entries make: a repeated key keeps its first place and its last value. -/
def ofEntries {κ α : Type} [DecidableEq κ] (entries : List (κ × α)) : List (κ × α) :=
  putAll [] entries

end Table

namespace Value

/-- Every value but null, false, zero and the empty text, list and object. -/
def isTruthy : Value → Bool
  | .null => false
  | .bool b => b
  | .int n => n != 0
  | .float x => !x.isZero
  | .str s => !s.isEmpty
  | .moment _ => true
  | .list items => !items.isEmpty
  | .object members => !members.isEmpty

def string? : Value → Option String
  | .str s => some s
  | _ => none

def isObject : Value → Bool
  | .object _ => true
  | _ => false

def member? (key : String) : Value → Option Value
  | .object members => members.lookup key
  | _ => none

end Value

end TreeLint
