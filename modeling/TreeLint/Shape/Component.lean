import TreeLint.Shape.Jsx
import TreeLint.Shape.Name
import TreeLint.Tree.Cursor

/-! Functions and classes that are React components, judged by their names and by what they
return. -/

namespace TreeLint.Shape

def isFunctionValue (t : Tree) : Read Bool := do
  match ← t.asNode? with
  | none => return false
  | some n => return n.type == "FunctionExpression" || n.type == "ArrowFunctionExpression"

def returnsElement (statement : Node) : Read Bool := do
  if statement.type != "ReturnStatement" then return false
  match ← (statement.get "argument").asNode? with
  | none => return false
  | some argument => return argument.type == "JSXElement" || argument.type == "JSXFragment"

/-- Whether some statement returns an element or a fragment; those after the first that does are
not looked at. -/
def someReturnsElement : List Tree → Read Bool
  | [] => .ok false
  | t :: rest => do
    if ← returnsElement (← t.asNode) then return true else someReturnsElement rest

/-- Whether a function with a block returns JSX from the top level of the block. -/
def returnsJsx (function : Node) : Read Bool := do
  match ← (function.get "body").asNode? with
  | none => return false
  | some body =>
    if body.type != "BlockStatement" then return false
    someReturnsElement (← (body.get "body").items)

def hasComponentName (n : Node) : Read Bool := do
  return NameShape.isComponentName (← identifierName (n.get "id"))

def declaresComponentName (n : Node) : Read Bool := do
  if n.type == "VariableDeclarator" then hasComponentName n else return false

/-- Whether a function or class is a component: by its name, by the name of the variable that it
initializes, or because it returns JSX. -/
def isComponent (c : Cursor) : Read Bool := do
  let n := c.node
  if ["FunctionDeclaration", "FunctionExpression", "ArrowFunctionExpression"].contains n.type then
    if ← hasComponentName n then return true
    match c.parent? with
    | none => returnsJsx n
    | some parent => if ← declaresComponentName parent.node then return true else returnsJsx n
  else if n.type == "ClassDeclaration" then hasComponentName n
  else return false

def isComponentDeclarator (n : Node) : Read Bool := do
  if ← isFunctionValue (n.get "init") then hasComponentName n else return false

end TreeLint.Shape
