import TreeLint.Text.Blank
import TreeLint.Tree.Position

/-! The shapes of JSX elements, attributes and literals. -/

namespace TreeLint.Shape

/-- The `name` of an identifier; none of a pattern or of an empty place. -/
def identifierName (t : Tree) : Read (Option String) := do
  return (← t.asNode?).bind Node.nameText

def literalText (t : Tree) : Read (Option String) := do
  match ← t.asNode? with
  | none => return none
  | some n => return if n.type == "Literal" then (n.get "value").string? else none

/-- One kind of text of a part of a template, where the parser gives one. -/
def quasiText (key : String) (quasi : Tree) : Read (Option String) := do
  match (← quasi.asNode).get "value" with
  | .value v => return (v.member? key).bind Value.string?
  | _ => return none

def templateText (n : Node) (key : String) : Read String := do
  let parts ← (← (n.get "quasis").items).mapM (quasiText key)
  return String.join (parts.filterMap id)

/-- The tag of an opening element, where it is a plain identifier. -/
def elementTag (opening : Node) : Read (Option String) := do
  match ← (opening.get "name").asNode? with
  | none => return none
  | some name => return if name.type == "JSXIdentifier" then name.nameText else none

/-- The name of an attribute; spread attributes and namespaced names have none. -/
def attributeName (attr : Node) : Read (Option String) := do
  if attr.type != "JSXAttribute" then return none
  identifierName (attr.get "name")

def attributeAmong (name : String) : List Tree → Read (Option Node)
  | [] => .ok none
  | t :: rest => do
    let attr ← t.asNode
    if (← attributeName attr) = some name then return some attr
    else attributeAmong name rest

def findAttribute (opening : Node) (name : String) : Read (Option Node) := do
  attributeAmong name (← (opening.get "attributes").items)

def isBlankLiteral (n : Node) : Bool :=
  n.type == "Literal" && match (n.get "value").string? with
    | some s => Text.isBlankString s
    | none => false

/-- Whether a child of an element is rendered. Blank text, empty containers and containers of a blank
text are not. -/
def isMeaningful (host : Host) (child : Node) : Read Bool := do
  if child.type == "JSXText" then
    let text := child.get "value"
    if text.isTruthy then return !Text.isBlankString (← text.plain host host.textLevels)
    else return false
  else if child.type == "JSXExpressionContainer" then
    match ← (child.get "expression").asNode? with
    | none => return false
    | some inside => return !(inside.type == "JSXEmptyExpression" || isBlankLiteral inside)
  else return true

def meaningful (host : Host) : List Tree → Read (List Node)
  | [] => .ok []
  | t :: rest => do
    let child ← t.asNode
    if ← isMeaningful host child then return child :: (← meaningful host rest)
    else meaningful host rest

def meaningfulChildren (host : Host) (n : Node) : Read (List Node) := do
  meaningful host (← (n.get "children").items)

def isFragmentElement (n : Node) : Read Bool := do
  match ← (n.get "openingElement").asNode? with
  | none => return false
  | some opening => match ← (opening.get "name").asNode? with
    | none => return false
    | some name =>
      if name.type == "JSXIdentifier" then return name.nameText = some "Fragment"
      else if name.type == "JSXMemberExpression" then
        if (← identifierName (name.get "object")) = some "React" then
          return (← identifierName (name.get "property")) = some "Fragment"
        else return false
      else return false

/-- Whether a fragment wraps one rendered child that is no short fragment itself. -/
def wrapsSingleChild (host : Host) (n : Node) : Read Bool := do
  match ← meaningfulChildren host n with
  | [child] => return child.type != "JSXFragment"
  | _ => return false

end TreeLint.Shape
