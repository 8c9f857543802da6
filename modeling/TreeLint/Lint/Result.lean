import TreeLint.Rule.Violation
import TreeLint.Source.Code

/-! Files that have been parsed, and the results of looking at them. -/

namespace TreeLint

/-- A parsed file: the name that reports give it, if it has one, its source, and the path of the
text on disk, if there is one. -/
structure ParsedFile where
  filename : Option String
  source : SourceCode
  sourcePath : Option String

/-- The violations in a file, and what became of its text if some were mended. -/
structure LintResult where
  filename : Option String
  violations : List Violation
  fixedSource : Option String
  appliedFixes : Nat

namespace LintResult

def count (result : LintResult) (severity : Severity) : Nat :=
  result.violations.countP fun v => v.severity == severity

def errorCount (result : LintResult) : Nat := result.count .error

def warningCount (result : LintResult) : Nat := result.count .warn

def fixableCount (result : LintResult) : Nat := result.violations.countP Violation.isFixable

def hasErrors (result : LintResult) : Bool := 0 < result.errorCount

end LintResult

end TreeLint
