import TreeLint.Rule.Basic
import TreeLint.Shape.Component
import TreeLint.Shape.Doc

/-! Functions at the top level have doc comments. Three rules share the work, one for each kind of
name; the option `folders` limits a rule to files that some pattern chooses. -/

namespace TreeLint.Rules.DocComment
open Message (slot)

def infoFor (description message : String) : RuleInfo where
  type := "suggestion"
  description := description
  category := "Documentation"
  messages := [("missingJSDoc", message)]
  schema := [.withIgnore [("folders", [])]]
  fixable := none

def isInFolders (context : RuleContext) : Read Bool := do
  match context.option? "folders" with
  | none | some .null => return true
  | some folders =>
    let filter ← PathFilter.ofPatterns (← folders.items) context.cwd context.host.pathSpec
    return context.filename.any filter.accepts

/-- Report `n` under a name of the wanted kind, unless the statement at `statement` has a doc
comment. -/
def require (context : RuleContext) (wants : Option String → Bool) (statement : Cursor) (n : Node)
    (name : Option String) : Reporting Unit := do
  if !wants name then return ()
  if ← Shape.hasDoc context.source statement then return ()
  context.reportAt n "missingJSDoc" [("name", NameShape.shownName name)]

def checkFunction (context : RuleContext) (wants : Option String → Bool) (c : Cursor) :
    Reporting Unit := do
  if !Shape.isRootLevel c then return ()
  require context wants c c.node (← Shape.identifierName (c.node.get "id"))

/-- Check a declared variable, if a function initializes it. -/
def checkDeclarator (context : RuleContext) (wants : Option String → Bool) (statement : Cursor)
    (t : Tree) : Reporting Unit := do
  let declarator ← t.asNode
  if ← Shape.isFunctionValue (declarator.get "init") then
    require context wants statement declarator (← Shape.identifierName (declarator.get "id"))

def checkDeclarators (context : RuleContext) (wants : Option String → Bool) (statement : Cursor) :
    List Tree → Reporting Unit
  | [] => pure ()
  | t :: rest => do
    checkDeclarator context wants statement t
    checkDeclarators context wants statement rest

def checkDeclaration (context : RuleContext) (wants : Option String → Bool) (c : Cursor) :
    Reporting Unit := do
  if !Shape.isRootLevel c then return ()
  checkDeclarators context wants c (← (c.node.get "declarations").items)

def ruleFor (name : String) (info : RuleInfo) (wants : Option String → Bool) : Rule where
  name := name
  info := info
  listeners := Rule.whenRelevant isInFolders fun context => .ok
    [(⟨"FunctionDeclaration", .enter⟩, .stateless (checkFunction context wants)),
     (⟨"VariableDeclaration", .enter⟩, .stateless (checkDeclaration context wants))]

def componentRule : Rule :=
  ruleFor "require-jsdoc-on-component"
    (infoFor "Require JSDoc comment for root-level React components"
      ("React component \"" ++ slot "name" ++ "\" should have a JSDoc comment."))
    NameShape.isComponentName

def hookRule : Rule :=
  ruleFor "require-jsdoc-on-hook"
    (infoFor "Require JSDoc comment for root-level React hooks"
      ("React hook \"" ++ slot "name" ++ "\" should have a JSDoc comment."))
    NameShape.isHookName

def rootFunctionRule : Rule :=
  ruleFor "require-jsdoc-on-root-function"
    (infoFor "Require JSDoc comment for root-level functions"
      ("Root-level function \"" ++ slot "name" ++ "\" should have a JSDoc comment."))
    NameShape.isRootFunctionName

end TreeLint.Rules.DocComment
