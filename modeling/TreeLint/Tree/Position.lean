import TreeLint.Tree.Basic

/-! Where a node stands in its source: character offsets from `range`, or else from `start` and
`end`, and line and column from `loc`. -/

namespace TreeLint.Node

/-- The first of two numbers, where a value is a pair. -/
def pair? : Tree → Option (Value × Value)
  | .value (.list [first, second]) => some (first, second)
  | _ => none

def start (n : Node) : Read (Option Ordinal) :=
  match pair? (n.get "range") with
  | some (first, _) => do return some (.int (← first.whole))
  | none => match n.get "start" with
    | .value v => .ok v.ordinal?
    | _ => .ok none

def stop (n : Node) : Read (Option Ordinal) :=
  match pair? (n.get "range") with
  | some (_, second) => do return some (.int (← second.whole))
  | none => match n.get "end" with
    | .value v => .ok v.ordinal?
    | _ => .ok none

def coordinate (n : Node) (key : String) : Option Ordinal :=
  match n.get "loc" with
  | .value loc => match loc.member? "start" with
    | some (.object place) => (place.lookup key).bind Value.ordinal?
    | _ => none
  | _ => none

def line (n : Node) : Option Ordinal := n.coordinate "line"

def column (n : Node) : Option Ordinal := n.coordinate "column"

end TreeLint.Node

namespace TreeLint

def Ordinal.written : Ordinal → String
  | .int n => toString n
  | .flag b => if b then "True" else "False"

/-- The written form of a node: its type and where it starts. -/
def Node.written (host : Host) (n : Node) : Read String := do
  let start ← n.start
  let place ← @Value.shown host 1 (start.elim .null Ordinal.toValue)
  return "<Node " ++ n.type ++ " at " ++ place ++ ">"

mutual

/-- The written form of a tree, within some levels of lists and of containers in its values. -/
def Tree.written (host : Host) : Tree → Nat → Read String
  | .node type fields, levels =>
    if levels < host.nodeLevels then .error .tooDeep else Node.written host ⟨type, fields⟩
  | .value v, levels => @Value.shown host levels v
  | .list _, 0 => .error .tooDeep
  | .list items, levels + 1 => do
    return "[" ++ ", ".intercalate (← Tree.writtenItems host items levels) ++ "]"

def Tree.writtenItems (host : Host) : List Tree → Nat → Read (List String)
  | [], _ => .ok []
  | item :: rest, levels => do
    return (← Tree.written host item levels) :: (← Tree.writtenItems host rest levels)

end

def Tree.plain (host : Host) (levels : Nat) : Tree → Read String
  | .value v => @Value.shownPlain host levels v
  | t => t.written host levels

end TreeLint
