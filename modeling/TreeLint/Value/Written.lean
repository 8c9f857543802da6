import TreeLint.Binary64.Shortest
import TreeLint.Host
import TreeLint.Value.Basic

/-! The written form of a value, as messages show it: texts in quotation marks, lists in brackets,
objects in braces. The plain form differs for a text alone, which stands without marks. A message
can show a value only if it is not nested too deeply and holds no integer that is too large. -/

namespace TreeLint.Value

section

variable [Host]

mutual

def written : Value → String
  | .null => "None"
  | .bool b => if b then "True" else "False"
  | .int n => toString n
  | .float x => x.text
  | .str s => Text.quoted Host.half? s
  | .moment m => m.text
  | .list items => "[" ++ ", ".intercalate (writtenItems items) ++ "]"
  | .object members => "\x7b" ++ ", ".intercalate (writtenMembers members) ++ "\x7d"

def writtenItems : List Value → List String
  | [] => []
  | item :: rest => item.written :: writtenItems rest

def writtenMembers : List (String × Value) → List String
  | [] => []
  | (key, value) :: rest => (Text.quoted Host.half? key ++ ": " ++ value.written) :: writtenMembers rest

end

def plain : Value → String
  | .str s => s
  | value => value.written

end

mutual

/-- Check that a value can be shown with some levels of containers left. -/
def checkWritable : Value → Nat → Read Unit
  | _, 0 => .error .tooDeep
  | .list items, levels + 1 => checkItems items levels
  | .object members, levels + 1 => checkMembers members levels
  | .int n, _ + 1 => if Text.isWritable n then .ok () else .error .hugeInteger
  | .null, _ + 1 | .bool _, _ + 1 | .float _, _ + 1 | .str _, _ + 1 | .moment _, _ + 1 =>
    .ok ()

def checkItems : List Value → Nat → Read Unit
  | [], _ => .ok ()
  | item :: rest, levels => do
    item.checkWritable levels
    checkItems rest levels

def checkMembers : List (String × Value) → Nat → Read Unit
  | [], _ => .ok ()
  | (_, v) :: rest, levels => do
    v.checkWritable levels
    checkMembers rest levels

end

variable [Host]

/-- The written form of a value that a message shows, within some levels. -/
def shown (levels : Nat) (v : Value) : Read String := do
  v.checkWritable levels
  return v.written

/-- The plain form of a value that a message shows, within some levels. -/
def shownPlain (levels : Nat) (v : Value) : Read String := do
  v.checkWritable levels
  return v.plain

end TreeLint.Value
