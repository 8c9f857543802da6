import TreeLint.Source.Code
import TreeLint.Tree.Cursor

/-! Declarations at the top level of a file and the doc comments above them. -/

namespace TreeLint.Shape

/-- Whether a node stands in the body of the program, on its own or inside an export. -/
def isRootLevel (c : Cursor) : Bool :=
  match c.parent? with
  | none => false
  | some parent =>
    parent.node.type == "Program" ||
      (parent.node.isExport && match parent.parent? with
        | none => false
        | some outer => outer.node.type == "Program")

/-- The statement that a doc comment stands above: the export that a node is in, or the node. -/
def documentedStatement (c : Cursor) : Cursor :=
  match c.parent? with
  | none => c
  | some parent => if parent.node.isExport then parent else c

/-- Whether a doc comment is among the comments directly before a node. -/
def hasDoc (source : SourceCode) (c : Cursor) : Read Bool := do
  return (← source.commentsBefore (documentedStatement c).node).any Comment.isDoc

end TreeLint.Shape
