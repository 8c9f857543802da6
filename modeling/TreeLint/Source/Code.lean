import TreeLint.Source.Comment
import TreeLint.Text.Blank
import TreeLint.Text.Basic

/-! A source: its text, its tree and its comments. Lines and columns count line feeds alone. -/

namespace TreeLint

/-- A source that has been parsed. The comments are in the order of their starts. -/
structure SourceCode where
  text : List Char
  root : Node
  comments : List Comment

namespace SourceCode

def ofTree [Host] (text : List Char) (root : Node) : Read SourceCode := do
  let comments ← Comment.ofRoot root
  return { text, root, comments := comments.mergeSort fun a b => a.start ≤ b.start }

def textOf (source : SourceCode) (n : Node) : Read (List Char) := do
  match ← n.start with
  | none => return []
  | some start => match ← n.stop with
    | none => return []
    | some stop => return Text.slice source.text start.value stop.value

/-- Of comments in falling order, those that lie before an offset with nothing but white space
between each of them and the next. -/
def runBefore (text : List Char) (offset : Int) : List Comment → List Comment
  | [] => []
  | c :: rest =>
    if offset < c.stop then runBefore text offset rest
    else if Text.allBlank (Text.slice text c.stop offset) then c :: runBefore text c.start rest
    else []

/-- The comments directly before a node, the nearest first. -/
def commentsBefore (source : SourceCode) (n : Node) : Read (List Comment) := do
  match ← n.start with
  | none => return []
  | some start =>
    if (source.text.length : Int) < start.value then return []
    else return runBefore source.text start.value source.comments.reverse

/-- The line, counted from one, and the column, counted from zero, of a place in a text. -/
def locate (text : List Char) (offset : Nat) : Nat × Nat :=
  let before := text.take offset
  (before.count '\n' + 1, (before.reverse.takeWhile (· ≠ '\n')).length)

/-- The line and column of an offset; an offset outside the text is moved to its nearest end. -/
def locationOf (source : SourceCode) (offset : Int) : Nat × Nat :=
  locate source.text (min offset.toNat source.text.length)

/-- The line and column at which a node starts: as recorded, else from its offset, else the start
of the source. -/
def nodeLocation (source : SourceCode) (n : Node) : Read (Ordinal × Ordinal) := do
  match n.line, n.column with
  | some line, some column => return (line, column)
  | _, _ => match ← n.start with
    | some start =>
      let (line, column) := source.locationOf start.value
      return (.int line, .int column)
    | none => return (.int 1, .int 0)

end SourceCode

end TreeLint
