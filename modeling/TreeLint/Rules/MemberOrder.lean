import TreeLint.Rules.TypeName

/-! In interfaces and object types, required members come before optional ones. -/

namespace TreeLint.Rules.MemberOrder
open Message (slot)

def info : RuleInfo where
  type := "suggestion"
  description :=
    "Require all required fields to come before optional fields in interfaces and types."
  category := "Best Practices"
  messages := [("requiredBeforeOptional",
    "Required field '" ++ slot "name" ++ "' should come before all optional fields in '"
      ++ slot "parent" ++ "'.")]
  schema := [.withIgnore []]
  fixable := none

/-- The members of the body of an interface or of an object type. -/
def membersOf (container : Tree) : Read (List Tree) := do
  match ← container.asNode? with
  | none => return []
  | some n => match n.get "body", n.get "members" with
    | .list items, _ => return items
    | _, .list items => return items
    | _, _ => return []

/-- The key of a property with a name, and the name. Methods, signatures and keys without a name
are not ordered. -/
def namedKey? (member : Node) : Read (Option (Node × String)) := do
  if member.type != "TSPropertySignature" then return none
  match ← (member.get "key").asNode? with
  | none => return none
  | some key => return (key.nameText.filter (· != "")).map fun name => (key, name)

/-- Report the required members that come after an optional one. -/
def checkMembers (context : RuleContext) (parent : String) : Bool → List Tree → Reporting Unit
  | _, [] => pure ()
  | optionalSeen, t :: rest => do
    let member ← t.asNode
    match ← namedKey? member with
    | none => checkMembers context parent optionalSeen rest
    | some (key, name) =>
      if (member.get "optional").isTruthy then checkMembers context parent true rest
      else
        if optionalSeen then
          context.reportAt key "requiredBeforeOptional" [("name", name), ("parent", parent)]
        checkMembers context parent optionalSeen rest

/-- The name of a declaration, or the empty text. -/
def declaredName (n : Node) : Read String := do
  let id := n.get "id"
  if id.isTruthy then return (← id.asNode).nameText.getD "" else return ""

def checkInterface (context : RuleContext) (c : Cursor) : Reporting Unit := do
  let parent ← declaredName c.node
  checkMembers context parent false (← membersOf (c.node.get "body"))

def checkAlias (context : RuleContext) (c : Cursor) : Reporting Unit := do
  match ← (c.node.get "typeAnnotation").asNode? with
  | none => return ()
  | some aliased =>
    if aliased.type != "TSTypeLiteral" then return ()
    let parent ← declaredName c.node
    checkMembers context parent false (← membersOf aliased.toTree)

def rule : Rule where
  name := "interface-type-required-first"
  info := info
  listeners := Rule.whenRelevant TypeName.concerns fun context => .ok
    [(⟨"TSInterfaceDeclaration", .enter⟩, .stateless (checkInterface context)),
     (⟨"TSTypeAliasDeclaration", .enter⟩, .stateless (checkAlias context))]

end TreeLint.Rules.MemberOrder
