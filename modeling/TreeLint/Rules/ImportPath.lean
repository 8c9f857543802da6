import TreeLint.Rule.Basic

/-! Modules of the project are imported through aliases, not by relative paths. -/

namespace TreeLint.Rules.ImportPath
open Message (slot)

def info : RuleInfo where
  type := "problem"
  description := "Enforce use of alias import paths instead of relative paths. Supports "
    ++ "configuration of allowed aliases and ignore patterns in your config."
  category := "Best Practices"
  messages := [("noRelativeImport",
    "Relative import path \"" ++ slot "importPath" ++ "\" detected. Use an alias import path "
      ++ "(e.g., " ++ slot "aliases" ++ ") instead.")]
  schema := [.withIgnore [("aliases", [])]]
  fixable := none

def isRelative (path : String) : Bool :=
  match path.toList with
  | '.' :: _ => true
  | '/' :: _ => true
  | _ => false

/-- Whether a path starts with one of some aliases. They are tried in order, and each that is tried
must be a text. -/
def startsWithSome (path : String) : List Value → Read Bool
  | [] => .ok false
  | .str start :: rest =>
    if start.toList.isPrefixOf path.toList then .ok true else startsWithSome path rest
  | _ :: _ => .error .wrongKind

/-- Report an import by a relative path, unless a pattern chooses the path or an alias starts
it. -/
def checkImport (context : RuleContext) (aliases : List Value) (ignored : PathFilter) (c : Cursor) :
    Reporting Unit := do
  match ← (c.node.get "source").asNode? with
  | none => return ()
  | some source => match (source.get "value").string? with
    | none => return ()
    | some path =>
      if !isRelative path || ignored.accepts path then return ()
      if ← startsWithSome path aliases then return ()
      context.reportAt source "noRelativeImport"
        [("importPath", path),
         ("aliases", ", ".intercalate (aliases.filterMap Value.string?))]

def rule : Rule where
  name := "enforce-alias-import-paths"
  info := info
  listeners := Rule.whenRelevant (fun _ => .ok true) fun context => do
    let aliases ← context.optionItems "aliases" ["@"]
    let ignored ← PathFilter.ofPatterns (← context.ignorePatterns) none context.host.pathSpec
    return [(⟨"ImportDeclaration", .enter⟩, .stateless (checkImport context aliases ignored))]

end TreeLint.Rules.ImportPath
