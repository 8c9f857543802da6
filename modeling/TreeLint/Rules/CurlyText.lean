import TreeLint.Json.Quoted
import TreeLint.Rule.Basic
import TreeLint.Shape.Jsx

/-! Attributes whose value is a literal text need no braces. The rule mends what it reports: the
literal takes the place of its container. -/

namespace TreeLint.Rules.CurlyText
open Message (slot)

def info : RuleInfo where
  type := "suggestion"
  description := "Disallow unnecessary curly braces for string literal props in JSX."
  category := "Stylistic Issues"
  messages := [("unnecessaryCurly",
    "Unnecessary curly braces for string literal prop '" ++ slot "prop"
      ++ "'. Use plain string instead.")]
  schema := [.withIgnore []]
  fixable := some "code"

/-- The source of a literal text: as it was written if the parser kept that, else in JSON, where
`half?` tells which characters stand for half of a surrogate pair. -/
def literalSource (half? : Char → Option Nat) (literal : Tree) (text : String) : Read String := do
  return ((← literal.asNode).get "raw").string?.getD (Json.quoted half? text)

def checkAttribute (context : RuleContext) (c : Cursor) : Reporting Unit := do
  match ← (c.node.get "value").asNode? with
  | none => return ()
  | some value =>
    if value.type != "JSXExpressionContainer" then return ()
    let literal := value.get "expression"
    match ← Shape.literalText literal with
    | none => return ()
    | some text =>
      let source ← literalSource context.host.half? literal text
      let name ← Shape.attributeName c.node
      let fix ← Fix.replacing value source
      context.report (.node value) "unnecessaryCurly" [("prop", name.getD "")] fix

def rule : Rule where
  name := "no-unnecessary-curly-in-props"
  info := info
  listeners := Rule.whenRelevant (fun _ => .ok true)
    fun context => .ok [(⟨"JSXAttribute", .enter⟩, .stateless (checkAttribute context))]

end TreeLint.Rules.CurlyText
