import TreeLint.Rule.Basic
import TreeLint.Shape.Component

/-! Components are declared at the top level of a file. The rule remembers the components that are
open; entering another one inside them is a violation. -/

namespace TreeLint.Rules.NestedComponent
open Message (slot)

def info : RuleInfo where
  type := "problem"
  description := "Disallow defining a new component inside another component."
  category := "Best Practices"
  messages := [("noNestedComponent",
    "Do not define a new component inside another component. Move '" ++ slot "name"
      ++ "' to the top level of the file.")]
  schema := [.withIgnore []]
  fixable := none

def openComponent (context : RuleContext) (c : Cursor) (memory : Memory) : Reporting Memory := do
  let name ← Shape.identifierName (c.node.get "id")
  if !memory.isEmpty then
    context.reportAt c.node "noNestedComponent" [("name", NameShape.shownName name)]
  return c.address :: memory

/-- Enter a node that is a component if a test says so. -/
def enter (context : RuleContext) (isComponent : Cursor → Read Bool) : Listener :=
  fun visited memory => do
    match visited with
    | none => (.error .noFields : Read Memory)
    | some c => if ← isComponent c then openComponent context c memory else return memory

/-- Leave a node, and close it if it is the innermost component. -/
def leave : Listener := fun visited memory =>
  match visited, memory with
  | some c, innermost :: outer => pure (if innermost = c.address then outer else memory)
  | _, _ => pure memory

def rule : Rule where
  name := "no-nested-component"
  info := info
  listeners := Rule.whenRelevant (fun _ => .ok true) fun context => .ok
    [(⟨"FunctionDeclaration", .enter⟩, enter context Shape.isComponent),
     (⟨"FunctionDeclaration", .leave⟩, leave),
     (⟨"ClassDeclaration", .enter⟩, enter context Shape.isComponent),
     (⟨"ClassDeclaration", .leave⟩, leave),
     (⟨"VariableDeclarator", .enter⟩,
      enter context fun c => Shape.isComponentDeclarator c.node),
     (⟨"VariableDeclarator", .leave⟩, leave)]

end TreeLint.Rules.NestedComponent
