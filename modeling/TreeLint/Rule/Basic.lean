import TreeLint.Host
import TreeLint.Rule.Message
import TreeLint.Rule.Reporting
import TreeLint.Source.Code
import TreeLint.Tree.Walk

/-! Rules. A rule looks at one file at a time: it is given the file and its options, and answers
with listeners for the nodes of the types that it cares about. -/

namespace TreeLint

/-- What an options object of a rule may hold: lists of texts under the given keys. Each key comes
with the annotations of its schema. -/
structure OptionsSchema where
  properties : List (String × Members)

namespace OptionsSchema

def withIgnore (properties : List (String × Members)) : OptionsSchema :=
  ⟨("ignore", []) :: properties⟩

end OptionsSchema

/-- What a rule reports, which options it takes and whether it can mend what it reports. -/
structure RuleInfo where
  type : String
  description : String
  category : String
  messages : List (String × String)
  schema : List OptionsSchema
  fixable : Option String

structure RuleContext where
  ruleId : String
  info : RuleInfo
  filename : Option String
  source : SourceCode
  options : List Value
  cwd : Option String
  severity : Severity
  host : Host

namespace RuleContext

def name (context : RuleContext) : Read String :=
  match context.filename with
  | some name => .ok name
  | none => .error .noName

def option? (context : RuleContext) (key : String) : Option Value :=
  context.options.head?.bind (·.member? key)

/-- The items of an entry of the first option; `whenAbsent` stands for an entry that is not
there. -/
def optionItems (context : RuleContext) (key : String) (whenAbsent : List String) :
    Read (List Value) :=
  match context.option? key with
  | some v => v.items
  | none => .ok (whenAbsent.map .str)

def ignorePatterns (context : RuleContext) : Read (List Value) :=
  ((context.option? "ignore").getD .null).itemsOrNone

def isIgnored (context : RuleContext) : Read Bool := do
  let filter ← PathFilter.ofPatterns (← context.ignorePatterns) context.cwd context.host.pathSpec
  return context.filename.any filter.accepts

/-- Where a report stands: at a node, or at a line and column. -/
inductive Spot where
  | node (n : Node)
  | place (line column : Ordinal)

def locate (context : RuleContext) : Spot → Read (Ordinal × Ordinal)
  | .node n => context.source.nodeLocation n
  | .place line column => .ok (line, column)

/-- The violation that a report makes. The message is looked up by its id and filled in; a change
is kept only if the rule declares that it makes some. -/
def violation (context : RuleContext) (spot : Spot) (messageId : String)
    (data : List (String × String)) (fix : Option Fix) : Read Violation := do
  let (line, column) ← context.locate spot
  match context.info.messages.lookup messageId with
  | none => .error (.noEntry messageId)
  | some template => return {
      ruleId := context.ruleId
      messageId
      message := Message.interpolate template data
      file := context.filename
      line
      column
      severity := context.severity
      data
      fix := if context.info.fixable.isSome then fix else none }

def report (context : RuleContext) (spot : Spot) (messageId : String)
    (data : List (String × String)) (fix : Option Fix) : Reporting Unit := do
  Reporting.report (← context.violation spot messageId data fix)

/-- Report a violation at a node, without a change. -/
def reportAt (context : RuleContext) (n : Node) (messageId : String)
    (data : List (String × String)) : Reporting Unit :=
  context.report (.node n) messageId data none

end RuleContext

/-- What a rule remembers between the visits of one file: the addresses of the components that are
open, the innermost first. -/
abbrev Memory := List Address

/-- What a rule does at a visit. The node is absent when a listener is asked about an empty
place. -/
abbrev Listener := Option Cursor → Memory → Reporting Memory

namespace Listener

def stateless (look : Cursor → Reporting Unit) : Listener := fun visited memory => do
  match visited with
  | some cursor => look cursor
  | none => (.error .noFields : Read Unit)
  return memory

end Listener

structure Selector where
  type : String
  phase : Phase
  deriving DecidableEq

/-- What a listener has to wait for to be called at a visit. -/
def Visit.selector (v : Visit) : Selector := ⟨v.cursor.node.type, v.phase⟩

def Selector.text (s : Selector) : String :=
  match s.phase with
  | .enter => s.type
  | .leave => s.type ++ ":exit"

abbrev Listeners := List (Selector × Listener)

/-- A rule: its name, what is known of it, and its listeners for a file. -/
structure Rule where
  name : String
  info : RuleInfo
  listeners : RuleContext → Read Listeners

namespace Rule

/-- A rule that passes over the files to ignore, and over those that do not concern it. -/
def whenRelevant (concerns : RuleContext → Read Bool) (listeners : RuleContext → Read Listeners)
    (context : RuleContext) : Read Listeners := do
  if !(← concerns context) then return []
  if ← context.isIgnored then return []
  listeners context

def capitalized (word : List Char) : List Char :=
  match word with
  | [] => []
  | c :: rest => c.toUpper :: rest

/-- The written form of a rule: its name in capitalized words, and its name. -/
def written (rule : Rule) : String :=
  String.ofList ((Text.pieces '-' rule.name.toList).flatMap capitalized)
    ++ "Rule(name=" ++ rule.name ++ ")"

end Rule

end TreeLint
