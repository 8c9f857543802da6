import TreeLint.Rule.Basic
import TreeLint.Shape.Jsx

/-! A fragment around one rendered child adds nothing. -/

namespace TreeLint.Rules.Fragment

def info : RuleInfo where
  type := "suggestion"
  description := "Warn if React fragments are unnecessary (e.g., wrapping a single child)."
  category := "Best Practices"
  messages := [("unnecessaryFragment",
    "Unnecessary React fragment: consider removing the fragment wrapper.")]
  schema := [.withIgnore []]
  fixable := none

def checkFragment (context : RuleContext) (c : Cursor) : Reporting Unit := do
  if ← Shape.wrapsSingleChild context.host c.node then
    context.reportAt c.node "unnecessaryFragment" []

def checkElement (context : RuleContext) (c : Cursor) : Reporting Unit := do
  if ← Shape.isFragmentElement c.node then checkFragment context c

def rule : Rule where
  name := "no-unnecessary-fragment"
  info := info
  listeners := Rule.whenRelevant (fun _ => .ok true) fun context => .ok
    [(⟨"JSXFragment", .enter⟩, .stateless (checkFragment context)),
     (⟨"JSXElement", .enter⟩, .stateless (checkElement context))]

end TreeLint.Rules.Fragment
