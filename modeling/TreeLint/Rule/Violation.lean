import TreeLint.Rule.Severity
import TreeLint.Tree.Position

/-! Violations: what a rule reports, with the change to the source that would mend it. -/

namespace TreeLint

/-- A change to a source: the characters from one offset to another give way to a text. -/
structure Fix where
  start : Ordinal
  stop : Ordinal
  text : String
  deriving DecidableEq

/-- The change that puts a text in the place of a node, when the offsets of the node are known. -/
def Fix.replacing (n : Node) (text : String) : Read (Option Fix) := do
  match ← n.start with
  | none => return none
  | some start => return (← n.stop).map fun stop => ⟨start, stop, text⟩

structure Violation where
  ruleId : String
  messageId : String
  message : String
  file : Option String
  line : Ordinal
  column : Ordinal
  severity : Severity
  data : List (String × String)
  fix : Option Fix
  deriving DecidableEq

namespace Violation

def isFixable (v : Violation) : Bool := v.fix.isSome

/-- The file, line and column, divided by colons. -/
def location (v : Violation) : String :=
  v.file.getD "None" ++ ":" ++ v.line.written ++ ":" ++ v.column.written

def withSeverity (v : Violation) (severity : Severity) : Violation := { v with severity }

/-- Whether a report stands no later than another, by line and then by column. -/
def isBefore (a b : Violation) : Bool :=
  a.line.value < b.line.value ||
    (a.line.value == b.line.value && a.column.value ≤ b.column.value)

end Violation

end TreeLint
