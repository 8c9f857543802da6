import TreeLint.Json.Writer
import TreeLint.Lint.Result

/-! Reports for tools: one object for each file, in a list. -/

namespace TreeLint

/-- A text as data, where there may be none. -/
def Value.ofString? : Option String → Value
  | some s => .str s
  | none => .null

def Fix.toValue (f : Fix) : Value :=
  .object [("range", .list [f.start.toValue, f.stop.toValue]), ("text", .str f.text)]

def Violation.toValue (v : Violation) : Value :=
  .object [
    ("rule_id", .str v.ruleId),
    ("message_id", .str v.messageId),
    ("message", .str v.message),
    ("file", .ofString? v.file),
    ("line", v.line.toValue),
    ("column", v.column.toValue),
    ("severity", .str v.severity.name),
    ("data", .object (v.data.map fun (key, text) => (key, .str text))),
    ("fix", match v.fix with
      | some f => f.toValue
      | none => .null)]

def LintResult.members (result : LintResult) : Members :=
  [("file", .ofString? result.filename),
   ("error_count", .int result.errorCount),
   ("warning_count", .int result.warningCount),
   ("fixable_count", .int result.fixableCount),
   ("applied_fixes", .int result.appliedFixes),
   ("violations", .list (result.violations.map Violation.toValue))]

def LintResult.toValue (result : LintResult) : Value := .object result.members

namespace Report

def json [Host] (results : List LintResult) : String :=
  Json.indented (.list (results.map LintResult.toValue)) ++ "\n"

end Report

end TreeLint
