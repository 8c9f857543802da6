import TreeLint.Tree.Cursor

/-! Routes through a tree: down into a field, into a position of a list, or up to the parent. A
route ends at a node or at an empty place. -/

namespace TreeLint

inductive RouteStep where
  | field (key : String)
  | index (i : Int)
  | parent

/-- What a route has reached: a node, or something else in a field of a node. -/
inductive Reached where
  | node (c : Cursor)
  | inside (owner : Cursor) (key : String) (indices : List Nat) (content : Tree)
  | nothing

namespace Reached

def ofContent (owner : Cursor) (key : String) (indices : List Nat) : Tree → Reached
  | .node type fields => .node (owner.descend key indices ⟨type, fields⟩)
  | .value .null => .nothing
  | t => .inside owner key indices t

def listItems? : Tree → Option (List Tree)
  | .list items => some items
  | .value (.list items) => some (items.map .value)
  | _ => none

def step : Reached → RouteStep → Option Reached
  | .node c, .field key => some (ofContent c key [] (c.node.get key))
  | .node c, .parent => some (match c.parent? with
    | some parent => .node parent
    | none => .nothing)
  | .inside owner key indices content, .index i =>
    if i < 0 then none
    else match (listItems? content).bind (·[i.toNat]?) with
      | some item => some (ofContent owner key (indices ++ [i.toNat]) item)
      | none => none
  | _, _ => none

def steps : Reached → List RouteStep → Option Reached
  | reached, [] => some reached
  | reached, s :: rest => (reached.step s).bind (·.steps rest)

end Reached

def Node.follow (root : Node) (route : List RouteStep) : Option (Option Cursor) :=
  match (Reached.node (.ofRoot root)).steps route with
  | some (.node c) => some (some c)
  | some .nothing => some none
  | _ => none

end TreeLint
