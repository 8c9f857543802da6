import TreeLint.Config.Basic
import TreeLint.Lint.Result

/-! The linter. Every enabled rule is set to work on the file, and its listeners are entered in two
tables by the type of node that they wait for, one for each phase of a visit. The tree is walked
once, and at each visit the listeners in the table are called in the order of their entry, which
is that of the registry. -/

namespace TreeLint

/-- A listener in a table, with the number of the rule whose memory it works on. -/
structure Callback where
  rule : Nat
  listener : Listener

abbrev CallTable := List (String × List Callback)

namespace CallTable

def callbacks (table : CallTable) (type : String) : List Callback :=
  (table.lookup type).getD []

def add (table : CallTable) (type : String) (callback : Callback) : CallTable :=
  Table.put table type (table.callbacks type ++ [callback])

end CallTable

/-- What is called on the way down and on the way up. -/
structure Dispatch where
  entering : CallTable
  leaving : CallTable

namespace Dispatch

def empty : Dispatch := ⟨[], []⟩

def isEmpty (d : Dispatch) : Bool := d.entering.isEmpty && d.leaving.isEmpty

def callbacks (d : Dispatch) (selector : Selector) : List Callback :=
  match selector.phase with
  | .enter => d.entering.callbacks selector.type
  | .leave => d.leaving.callbacks selector.type

def add (rule : Nat) (d : Dispatch) (entry : Selector × Listener) : Dispatch :=
  match entry.1.phase with
  | .enter => { d with entering := d.entering.add entry.1.type ⟨rule, entry.2⟩ }
  | .leave => { d with leaving := d.leaving.add entry.1.type ⟨rule, entry.2⟩ }

/-- Call callbacks at a node, one after the other, each with the memory of its rule. -/
def call (cursor : Cursor) : List Callback → List Memory → Reporting (List Memory)
  | [], memories => pure memories
  | callback :: rest, memories => do
    let memory ← callback.listener (some cursor) (memories[callback.rule]?.getD [])
    call cursor rest (memories.set callback.rule memory)

/-- Call what waits for the visits, in turn; `found` holds the reports so far, the last one
first. -/
def follow (d : Dispatch) (found : List Violation) (memories : List Memory) :
    List Visit → Read (List Violation)
  | [] => .ok found.reverse
  | visit :: rest =>
    let called := call visit.cursor (d.callbacks visit.selector) memories
    match called.result with
    | .error fault => .error fault
    | .ok memories => follow d (called.reports.reverseAux found) memories rest

end Dispatch

namespace Lint

variable [Host]

def contextFor (file : ParsedFile) (cwd : Option String) (rule : Rule)
    (setting : RuleSetting) : RuleContext where
  ruleId := rule.name
  info := rule.info
  filename := file.filename
  source := file.source
  options := setting.options
  cwd := cwd
  severity := setting.severity
  host := inferInstance

/-- Set rules to work on a file, the first of them under a number, and enter their listeners. -/
def prepare (file : ParsedFile) (cwd : Option String) (number : Nat)
    (d : Dispatch) : List (Rule × RuleSetting) → Read Dispatch
  | [] => .ok d
  | (rule, setting) :: rest => do
    let listeners ← rule.listeners (contextFor file cwd rule setting)
    prepare file cwd (number + 1) (listeners.foldl (Dispatch.add number) d) rest

def emission (file : ParsedFile) (cwd : Option String)
    (rules : List (Rule × RuleSetting)) : Read (List Violation) := do
  let d ← prepare file cwd 0 .empty rules
  if d.isEmpty then return []
  else d.follow [] (rules.map fun _ => []) file.source.root.walk

/-- The violations in a file, in the order of their places; those of one place in the order in
which they were reported. -/
def run (config : Configuration) (file : ParsedFile) (cwd : Option String) :
    Read LintResult := do
  let found ← emission file cwd config.enabledRules
  return {
    filename := file.filename
    violations := found.mergeSort Violation.isBefore
    fixedSource := none
    appliedFixes := 0 }

end Lint

end TreeLint
