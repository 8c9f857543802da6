import TreeLint.Rule.Basic
import TreeLint.Shape.Spelling

/-! Names of interfaces and type aliases carry a mark at their start or `Props` at their end. -/

namespace TreeLint.Rules.TypeName
open Message (slot)

def info : RuleInfo where
  type := "suggestion"
  description := "Enforce 'I' prefix or 'Props' suffix for interfaces, and 'T' prefix or "
    ++ "'Props' suffix for types in TypeScript files."
  category := "Best Practices"
  messages := [
    ("badInterfaceName",
      "Interface '" ++ slot "name" ++ "' should start with 'I' or end with 'Props'."),
    ("badTypeName", "Type '" ++ slot "name" ++ "' should start with 'T' or end with 'Props'.")]
  schema := [.withIgnore []]
  fixable := none

def isTypeScript (filename : String) : Bool :=
  ".ts".toList.isSuffixOf filename.toList || ".tsx".toList.isSuffixOf filename.toList

def concerns (context : RuleContext) : Read Bool := do return isTypeScript (← context.name)

def checkDeclaration (context : RuleContext) (mark : Char) (messageId : String) (c : Cursor) :
    Reporting Unit := do
  match ← (c.node.get "id").asNode? with
  | none => return ()
  | some id =>
    let name := id.nameText.getD ""
    if !Spelling.isTypeName mark name then context.reportAt id messageId [("name", name)]

def rule : Rule where
  name := "enforce-interface-type-naming"
  info := info
  listeners := Rule.whenRelevant concerns fun context => .ok
    [(⟨"TSInterfaceDeclaration", .enter⟩,
      .stateless (checkDeclaration context 'I' "badInterfaceName")),
     (⟨"TSTypeAliasDeclaration", .enter⟩,
      .stateless (checkDeclaration context 'T' "badTypeName"))]

end TreeLint.Rules.TypeName
