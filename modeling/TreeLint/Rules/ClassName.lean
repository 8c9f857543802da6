import TreeLint.Rule.Basic
import TreeLint.Shape.Jsx

/-! Class names go through a helper function and are not blank. -/

namespace TreeLint.Rules.ClassName

def utilityInfo : RuleInfo where
  type := "suggestion"
  description :=
    "Encourage use of a function/library (e.g., cn) for className instead of string literals."
  category := "Best Practices"
  messages := [("useCn",
    "Use a function or library (e.g., cn) to handle className instead of a string literal.")]
  schema := [.withIgnore [("allow", [("description", .str
    "Allow these string literal values for className (e.g., empty string)")])]]
  fixable := none

def blankInfo (description messageId message : String) : RuleInfo where
  type := "suggestion"
  description := description
  category := "Best Practices"
  messages := [(messageId, message)]
  schema := [.withIgnore []]
  fixable := none

/-- Texts that a template may have. Lists and objects are no members of a set. -/
def allowedTexts (items : List Value) : Read (List String) :=
  if items.any fun | .list _ | .object _ => true | _ => false then .error .wrongKind
  else .ok (items.filterMap Value.string?)

/-- Whether a template without expressions has an allowed text. -/
def isAllowed (allowed : List String) (template : Node) : Read Bool := do
  if (template.get "expressions").isTruthy then return false
  return allowed.contains (← Shape.templateText template "cooked")

def checkTemplate (context : RuleContext) (allowed : List String) (c : Cursor) :
    Reporting Unit := do
  if (← Shape.attributeName c.node) != some "className" then return ()
  match ← (c.node.get "value").asNode? with
  | none => return ()
  | some value =>
    if value.type != "JSXExpressionContainer" then return ()
    match ← (value.get "expression").asNode? with
    | none => return ()
    | some expression =>
      if expression.type != "TemplateLiteral" then return ()
      if ← isAllowed allowed expression then return ()
      context.reportAt value "useCn" []

def utilityRule : Rule where
  name := "enforce-classname-utility"
  info := utilityInfo
  listeners := Rule.whenRelevant (fun _ => .ok true) fun context => do
    let allowed ← allowedTexts (← context.optionItems "allow" [""])
    return [(⟨"JSXAttribute", .enter⟩, .stateless (checkTemplate context allowed))]

def onlyPart (parts : Tree) : Read (Option Node) :=
  if !parts.isTruthy then .ok none
  else match parts with
    | .list [part] => do return some (← part.asNode)
    | .list _ => .ok none
    | .node _ _ => .error .wrongKind
    | .value v => do
      match ← v.items with
      | [_] => .error (if v.isObject then .noPlace 0 else .noFields)
      | _ => return none

def blankLiteral (n : Node) : Option Node := if Shape.isBlankLiteral n then some n else none

def blankTemplate (n : Node) : Read (Option Node) := do
  match ← onlyPart (n.get "quasis") with
  | none => return none
  | some part =>
    let raw ← Shape.quasiText "raw" part.toTree
    return if raw.any Text.isBlankString then some n else none

def blankValue (attr : Node) : Read (Option Node) := do
  if (← Shape.attributeName attr) != some "className" then return none
  match ← (attr.get "value").asNode? with
  | none => return none
  | some value =>
    if value.type == "Literal" then return blankLiteral value
    if value.type != "JSXExpressionContainer" then return none
    match ← (value.get "expression").asNode? with
    | none => return none
    | some expression =>
      if expression.type == "Literal" then return blankLiteral expression
      if expression.type == "TemplateLiteral" then blankTemplate expression else return none

def checkBlank (context : RuleContext) (messageId : String) (c : Cursor) : Reporting Unit := do
  match ← blankValue c.node with
  | none => return ()
  | some n => context.reportAt n messageId []

def blankRule (name : String) (info : RuleInfo) (messageId : String) : Rule where
  name := name
  info := info
  listeners := Rule.whenRelevant (fun _ => .ok true) fun context =>
    .ok [(⟨"JSXAttribute", .enter⟩, .stateless (checkBlank context messageId))]

def emptyRule : Rule :=
  blankRule "enforce-no-empty-classname-utility"
    (blankInfo "Disallow empty className strings" "emptyClassName"
      "Empty className string found. Remove it or add valid classes.")
    "emptyClassName"

def emptyTailwindRule : Rule :=
  blankRule "no-empty-tailwind-class"
    (blankInfo "Disallow empty Tailwind CSS class strings" "emptyTailwindClass"
      "Empty Tailwind CSS class string found. Remove it or add classes.")
    "emptyTailwindClass"

end TreeLint.Rules.ClassName
