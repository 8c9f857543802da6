import TreeLint.Tree.Position

/-! Comments of a source, as parsers list them beside the tree. -/

namespace TreeLint

/-- A comment: its kind (`Line` or `Block`), its text without the delimiters, and the offsets of
its first character and of the one after its last. -/
structure Comment where
  kind : String
  text : String
  start : Int
  stop : Int
  deriving DecidableEq

namespace Comment

def isDoc (c : Comment) : Bool := c.kind == "Block" && c.text.toList.head? == some '*'

/-- The offsets of a serialized comment, from `range` or else from `start` and `end`. -/
def span? (members : Members) : Read (Option (Int × Int)) :=
  match members.lookup "range" with
  | some (.list [first, second]) => do return some (← first.whole, ← second.whole)
  | _ => match (members.lookup "start").bind Value.ordinal?,
      (members.lookup "end").bind Value.ordinal? with
    | some first, some second => .ok (some (first.value, second.value))
    | _, _ => .ok none

def textOf [Host] (members : Members) (key : String) : Read String :=
  match members.lookup key with
  | some v => v.shownPlain Host.commentLevels
  | none => .ok ""

/-- The comment that an object serializes, unless it has no offsets. -/
def ofMembers? [Host] (members : Members) : Read (Option Comment) := do
  match ← span? members with
  | none => return none
  | some (start, stop) =>
    let kind ← textOf members "type"
    return some { kind, text := ← textOf members "value", start, stop }

/-- The comments among serialized items; items that are no objects are passed over. -/
def ofItems [Host] : List Value → Read (List Comment)
  | [] => .ok []
  | .object members :: rest => do
    let comment ← ofMembers? members
    return comment.toList ++ (← ofItems rest)
  | _ :: rest => ofItems rest

def ofRoot [Host] (root : Node) : Read (List Comment) := do
  match root.get "comments" with
  | .value v => ofItems (← v.itemsOrNone)
  | t => ofItems ((← t.items).map fun | .value v => v | _ => .null)

end Comment

end TreeLint
