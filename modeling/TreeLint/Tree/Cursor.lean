import TreeLint.Tree.Children

/-! A node together with the way from the root to it. The way gives the parent of the node and
tells it apart from every other node of the tree. -/

namespace TreeLint

/-- One step down a tree: a node, one of its fields, and the positions in the nested lists that the
field holds. -/
structure Descent where
  parent : Node
  key : String
  indices : List Nat

/-- A node of a tree; the steps that lead to it stand with the last one first. -/
structure Cursor where
  node : Node
  above : List Descent

/-- What tells a node from the other nodes of its tree: the fields and positions on the way to
it. -/
abbrev Address := List (String × List Nat)

namespace Cursor

def ofRoot (root : Node) : Cursor := ⟨root, []⟩

def parent? (c : Cursor) : Option Cursor :=
  match c.above with
  | [] => none
  | step :: above => some ⟨step.parent, above⟩

def address (c : Cursor) : Address := c.above.map fun step => (step.key, step.indices)

def descend (c : Cursor) (key : String) (indices : List Nat) (node : Node) : Cursor :=
  ⟨node, ⟨c.node, key, indices⟩ :: c.above⟩

def children (c : Cursor) : List Cursor :=
  c.node.placedChildren.map fun (place, child) => c.descend place.key place.index.toList child

end Cursor

end TreeLint
