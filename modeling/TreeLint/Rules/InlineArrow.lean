import TreeLint.Rule.Basic

/-! Functions for JSX attributes are defined outside of the element. -/

namespace TreeLint.Rules.InlineArrow

def info : RuleInfo where
  type := "suggestion"
  description := "Disallow inline arrow functions in JSX props (e.g., onClick=\x7b() => ...\x7d) "
    ++ "for better performance."
  category := "Best Practices"
  messages := [("noInlineArrow",
    "Avoid inline arrow functions in JSX props (e.g., onClick). Define the function "
      ++ "outside the render method for better performance.")]
  schema := [.withIgnore []]
  fixable := none

def checkAttribute (context : RuleContext) (c : Cursor) : Reporting Unit := do
  match ← (c.node.get "value").asNode? with
  | none => return ()
  | some value =>
    if value.type != "JSXExpressionContainer" then return ()
    match ← (value.get "expression").asNode? with
    | none => return ()
    | some expression =>
      if expression.type == "ArrowFunctionExpression" then
        context.reportAt value "noInlineArrow" []

def rule : Rule where
  name := "no-inline-arrow-functions-in-jsx"
  info := info
  listeners := Rule.whenRelevant (fun _ => .ok true)
    fun context => .ok [(⟨"JSXAttribute", .enter⟩, .stateless (checkAttribute context))]

end TreeLint.Rules.InlineArrow
