import TreeLint.Rule.Basic
import TreeLint.Shape.Component
import TreeLint.Shape.Spelling

/-! Constants at the top level of a component file are written in capitals. -/

namespace TreeLint.Rules.ConstantName
open Message (slot)

def info : RuleInfo where
  type := "suggestion"
  description := "Require top-level consts to be ALL_CAPS (snake case)"
  category := "Best Practices"
  messages := [("topLevelConstCaps",
    "Top-level const \"" ++ slot "name" ++ "\" should be ALL_CAPS (snake case).")]
  schema := [.withIgnore []]
  fixable := none

/-- Report a declared constant whose name is not in capitals. Functions follow other rules. -/
def checkDeclarator (context : RuleContext) (t : Tree) : Reporting Unit := do
  let declarator ← t.asNode
  if ← Shape.isFunctionValue (declarator.get "init") then return ()
  match ← (declarator.get "id").asNode? with
  | none => return ()
  | some binding =>
    if binding.type != "Identifier" then return ()
    let name := binding.nameText.getD ""
    if !Spelling.isAllCaps name then context.reportAt binding "topLevelConstCaps" [("name", name)]

def checkDeclarators (context : RuleContext) : List Tree → Reporting Unit
  | [] => pure ()
  | t :: rest => do
    checkDeclarator context t
    checkDeclarators context rest

def checkStatement (context : RuleContext) (t : Tree) : Reporting Unit := do
  let statement ← t.asNode
  if statement.type == "VariableDeclaration" && (statement.get "kind").string? == some "const" then
    checkDeclarators context (← (statement.get "declarations").items)

def checkStatements (context : RuleContext) : List Tree → Reporting Unit
  | [] => pure ()
  | t :: rest => do
    checkStatement context t
    checkStatements context rest

def concerns (context : RuleContext) : Read Bool := do
  return ".tsx".toList.isSuffixOf (← context.name).toList

def rule : Rule where
  name := "top-level-const-snake"
  info := info
  listeners := Rule.whenRelevant concerns fun context => .ok [(⟨"Program", .enter⟩,
    .stateless fun c => do checkStatements context (← (c.node.get "body").items))]

end TreeLint.Rules.ConstantName
