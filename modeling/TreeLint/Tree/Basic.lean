import TreeLint.Host
import TreeLint.Value.Written

/-! Syntax trees as parsers serialize them. A node has a type and ordered fields; a field holds a
node, a list, or any data value. A field that a node does not have reads as null, so that a rule
takes an unusual shape for one that it does not match. -/

namespace TreeLint

inductive Tree where
  | node (type : String) (fields : List (String × Tree))
  | list (items : List Tree)
  | value (v : Value)
  deriving Inhabited

/-- The fields of a node in order; the type and the link to the parent are not among them. -/
abbrev Fields := List (String × Tree)

structure Node where
  type : String
  fields : Fields
  deriving Inhabited

namespace Tree

def null : Tree := .value .null

/-- Fields that are kept as data, whatever they hold. -/
def isDataKey (key : String) : Bool := ["comments", "tokens", "loc", "range"].contains key

/-- Keys of a serialized node that are no fields. -/
def isReservedKey (key : String) : Bool := key == "type" || key == "parent"

section

variable [Host]

mutual

/-- The tree that a value serializes: an object with a `type` is a node and the items of a list
are taken one by one; every other value stays data. -/
def ofValue : Value → Tree
  | .object members => match members.lookup "type" with
    | some type => .node type.plain (ofMembers members)
    | none => .value (.object members)
  | .list items => .list (ofItems items)
  | .null => .value .null
  | .bool b => .value (.bool b)
  | .int n => .value (.int n)
  | .float x => .value (.float x)
  | .str s => .value (.str s)
  | .moment m => .value (.moment m)

def ofItems : List Value → List Tree
  | [] => []
  | item :: rest => ofValue item :: ofItems rest

def ofMembers : List (String × Value) → List (String × Tree)
  | [] => []
  | (key, v) :: rest =>
    if isReservedKey key then ofMembers rest
    else (key, if isDataKey key then .value v else ofValue v) :: ofMembers rest

end

mutual

/-- Check that the nodes directly in a value, or in its lists, can be made, with some lists around it
already. The type of each has to be shown. -/
def checkDepth (around : Nat) (v : Value) : Read Unit :=
  if Host.listLevels < around then .error .tooDeep
  else match v with
    | .list items => checkItems (around + 1) items
    | .object members => match members.lookup "type" with
      | some type => type.checkWritable (Host.typeLevels around)
      | none => .ok ()
    | .null | .bool _ | .int _ | .float _ | .str _ | .moment _ => .ok ()

def checkItems (around : Nat) : List Value → Read Unit
  | [] => .ok ()
  | item :: rest => do
    checkDepth around item
    checkItems around rest

end

def checkMembers : List (String × Value) → Read Unit
  | [] => .ok ()
  | (key, v) :: rest => do
    if !isReservedKey key && !isDataKey key then checkDepth 0 v
    checkMembers rest

mutual

/-- Check what stands inside the nodes that are directly in a value. Nodes may be nested at will. The
node that is made last is looked into first. -/
def checkInside : Value → Read Unit
  | .list items => checkInsideItems items
  | .object members => match members.lookup "type" with
    | some _ => do
      checkMembers members
      checkInsideMembers members
    | none => .ok ()
  | .null | .bool _ | .int _ | .float _ | .str _ | .moment _ => .ok ()

def checkInsideItems : List Value → Read Unit
  | [] => .ok ()
  | item :: rest => do
    checkInsideItems rest
    checkInside item

def checkInsideMembers : List (String × Value) → Read Unit
  | [] => .ok ()
  | (key, v) :: rest => do
    checkInsideMembers rest
    if !isReservedKey key && !isDataKey key then checkInside v

end

/-- The node that a value serializes. The value has to be an object with a `type`. -/
def root (v : Value) : Read Node := do
  match v with
  | .object members => match members.lookup "type" with
    | some type =>
      type.checkWritable Host.rootLevels
      checkInside v
      return ⟨type.plain, ofMembers members⟩
    | none => .error (.noEntry "type")
  | _ => .error .wrongKind

end

def asNode : Tree → Read Node
  | .node type fields => .ok ⟨type, fields⟩
  | .list _ | .value _ => .error .noFields

def asNode? : Tree → Read (Option Node)
  | .value .null => .ok none
  | .node type fields => .ok (some ⟨type, fields⟩)
  | .list _ | .value _ => .error .noFields

def string? : Tree → Option String
  | .value (.str s) => some s
  | _ => none

/-- Every tree but an empty list and a value that is not truthy. -/
def isTruthy : Tree → Bool
  | .node _ _ => true
  | .list items => !items.isEmpty
  | .value v => v.isTruthy

/-- What stands at a place that holds several things; nothing where the place is not truthy. -/
def items (t : Tree) : Read (List Tree) :=
  match t with
  | .list items => .ok items
  | .value v => do return (← v.itemsOrNone).map .value
  | .node _ _ => .error .wrongKind

end Tree

namespace Node

def toTree (n : Node) : Tree := .node n.type n.fields

/-- The content of a field; null when the node has no such field. -/
def get (n : Node) (key : String) : Tree := (n.fields.lookup key).getD .null

def nameText (n : Node) : Option String := (n.get "name").string?

/-- Named and default exports, whose declaration stands inside them. -/
def isExport (n : Node) : Bool :=
  n.type == "ExportNamedDeclaration" || n.type == "ExportDefaultDeclaration"

end Node

end TreeLint
