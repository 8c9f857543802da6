import TreeLint.Rule.Basic
import TreeLint.Shape.Spelling

/-! File names are written in kebab case up to their first dot. -/

namespace TreeLint.Rules.FileName
open Message (slot)

/-- The extensions of the files that are checked, unless an option lists others. -/
def usualExtensions : List String := [".js", ".ts", ".jsx", ".tsx"]

def info : RuleInfo where
  type := "suggestion"
  description := "Enforce kebab-case format for file names (e.g., my-component.tsx)"
  category := "Best Practices"
  messages := [("notKebabCase",
    "File name \"" ++ slot "filename" ++ "\" should be in kebab-case (e.g., my-component.tsx).")]
  schema := [.withIgnore
    [("extensions", [("default", .list (usualExtensions.map .str))])]]
  fixable := none

/-- The last name of a path of either slash. -/
def baseName (filename : String) : String :=
  String.ofList ((filename.toList.reverse.takeWhile fun c => c ≠ '/' && c ≠ '\x5c').reverse)

/-- Whether a name ends in one of some extensions. They are tried in order, and each that is tried
must be a text. -/
def endsInSome (name : String) : List Value → Read Bool
  | [] => .ok false
  | .str extension :: rest =>
    if extension.toList.isSuffixOf name.toList then .ok true else endsInSome name rest
  | _ :: _ => .error .wrongKind

/-- Report a file whose name is not in kebab case; the tree does not matter. -/
def checkName (context : RuleContext) (name : String) : Listener := fun _ memory => do
  if !Spelling.isKebabFileName name then
    context.report (.place (.int 1) (.int 0)) "notKebabCase" [("filename", name)] none
  return memory

def listeners (context : RuleContext) : Read Listeners := do
  let extensions ← context.optionItems "extensions" usualExtensions
  match context.filename with
  | none => .error .wrongKind
  | some filename =>
    let name := baseName filename
    if name = "" then return []
    if !(← endsInSome name extensions) then return []
    return [(⟨"Program", .enter⟩, checkName context name)]

def rule : Rule where
  name := "enforce-kebab-case-filenames"
  info := info
  listeners := Rule.whenRelevant (fun _ => .ok true) listeners

end TreeLint.Rules.FileName
