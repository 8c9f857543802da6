import TreeLint.Rule.Basic
import TreeLint.Shape.Jsx
import TreeLint.Text.Color

/-! Colors come from variables and theme tokens, not from literals in styles and class names. -/

namespace TreeLint.Rules.DirectColor

def info : RuleInfo where
  type := "problem"
  description := "Disallow direct color values in styles or classNames. "
    ++ "Use CSS variables or theme tokens."
  category := "Best Practices"
  messages := [("noDirectColor",
    "Do not use direct color values (e.g., '#fff', 'red', 'rgb(0,0,0)') in styles "
      ++ "or classNames. Use CSS variables or theme tokens instead.")]
  schema := [.withIgnore []]
  fixable := none

def colorKeys : List String := ["color", "background", "backgroundColor", "borderColor"]

def checkText (context : RuleContext) (n : Node) (text : Option String) : Reporting Unit :=
  if text.any Text.Color.isFound then context.reportAt n "noDirectColor" [] else pure ()

/-- Report `place` if a literal or template holds a color. -/
def checkValue (context : RuleContext) (place n : Node) : Reporting Unit := do
  if n.type == "Literal" then checkText context place (n.get "value").string?
  else if n.type == "TemplateLiteral" then
    checkText context place (some (← Shape.templateText n "cooked"))

/-- Report the value of a style property that holds a color. -/
def checkProperty (context : RuleContext) (t : Tree) : Reporting Unit := do
  let property ← t.asNode
  if property.type != "Property" then return ()
  match ← Shape.identifierName (property.get "key") with
  | none => return ()
  | some key =>
    if !colorKeys.contains key then return ()
    match ← (property.get "value").asNode? with
    | none => return ()
    | some value => checkValue context value value

def checkProperties (context : RuleContext) : List Tree → Reporting Unit
  | [] => pure ()
  | t :: rest => do
    checkProperty context t
    checkProperties context rest

/-- Report colors inside the braces of a `style` or `className`. -/
def checkExpression (context : RuleContext) (attrName : String) (place expression : Node) :
    Reporting Unit := do
  if attrName = "style" then
    if expression.type == "ObjectExpression" then
      checkProperties context (← (expression.get "properties").items)
  else checkValue context place expression

/-- Report colors in the attributes `style` and `className`. -/
def checkAttribute (context : RuleContext) (c : Cursor) : Reporting Unit := do
  match ← Shape.attributeName c.node with
  | none => return ()
  | some name =>
    if name != "style" && name != "className" then return ()
    match ← (c.node.get "value").asNode? with
    | none => return ()
    | some value =>
      if value.type == "Literal" then checkText context value (value.get "value").string?
      else if value.type == "JSXExpressionContainer" then
        match ← (value.get "expression").asNode? with
        | none => return ()
        | some expression => checkExpression context name value expression

def rule : Rule where
  name := "no-direct-colors"
  info := info
  listeners := Rule.whenRelevant (fun _ => .ok true)
    fun context => .ok [(⟨"JSXAttribute", .enter⟩, .stateless (checkAttribute context))]

end TreeLint.Rules.DirectColor
