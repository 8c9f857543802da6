import TreeLint.Count
import TreeLint.Lint.Result
import TreeLint.Report.Markup

/-! Reports for people: a table for each file with violations, and a line that sums them up. -/

namespace TreeLint.Report

structure Cell where
  text : String
  style : Option String
  deriving DecidableEq

def Cell.ofText (text : String) : Cell := ⟨text, none⟩

inductive Output where
  /-- A line, with the styles of its parts. -/
  | line (text : String) (styles : List String)
  /-- A table. -/
  | table (title : Cell) (columns : List String) (rows : List (List Cell))
  deriving DecidableEq

def severityStyle : Severity → Option String
  | .error => some "bold red"
  | .warn => some "yellow"
  | .off => none

def row (v : Violation) : List Cell :=
  [.ofText (v.line.written ++ ":" ++ v.column.written), ⟨v.severity.name, severityStyle v.severity⟩,
   .ofText v.ruleId, .ofText (visible v.message)]

/-- The table of a file, which must have a name. -/
def table (result : LintResult) : Read Output :=
  match result.filename with
  | none => .error .noName
  | some name => .ok (.table (.ofText (visible name)) ["Line:Col", "Severity", "Rule", "Message"]
    (result.violations.map row))

def summary (results : List LintResult) : List Output :=
  let errors := sumOver LintResult.errorCount results
  let warnings := sumOver LintResult.warningCount results
  let fixable := sumOver LintResult.fixableCount results
  if errors + warnings = 0 then [.line "✅ No problems found." ["green"]]
  else
    .line ("✖ " ++ toString (errors + warnings) ++ " problem(s) (" ++ toString errors
        ++ " error(s), " ++ toString warnings ++ " warning(s))")
      [if errors = 0 then "yellow" else "bold red"]
    :: if fixable = 0 then []
      else [.line ("  " ++ toString fixable ++ " problem(s) fixable with the \x60--fix\x60 option.")
        []]

def appliedLine (results : List LintResult) : List Output :=
  let applied := sumOver LintResult.appliedFixes results
  if applied = 0 then []
  else [.line ("Applied " ++ toString applied ++ " fix(es).") ["green"]]

def terminal (results : List LintResult) : Read (List Output) := do
  let tables ← (results.filter fun result => !result.violations.isEmpty).mapM table
  return tables ++ appliedLine results ++ summary results

def rowText (cells : List String) : String := "  ".intercalate cells

def Output.plain : Output → List String
  | .line text _ => [text]
  | .table title columns rows =>
    title.text :: rowText columns :: rows.map fun cells => rowText (cells.map (·.text))

end TreeLint.Report
