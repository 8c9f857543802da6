import TreeLint.Rule.Basic

/-! Modules export by name. -/

namespace TreeLint.Rules.DefaultExport

def info : RuleInfo where
  type := "suggestion"
  description := "Disallow default exports; enforce named exports only."
  category := "Best Practices"
  messages := [("noDefaultExport", "Default export is not allowed. Use named exports instead.")]
  schema := [.withIgnore []]
  fixable := none

/-- Report a default export; without a node the report stands at the start of the file. -/
def checkExport (context : RuleContext) : Listener := fun visited memory => do
  let spot := match visited with
    | some c => .node c.node
    | none => .place (.int 1) (.int 0)
  context.report spot "noDefaultExport" [] none
  return memory

def rule : Rule where
  name := "no-default-export"
  info := info
  listeners := Rule.whenRelevant (fun _ => .ok true)
    fun context => .ok [(⟨"ExportDefaultDeclaration", .enter⟩, checkExport context)]

end TreeLint.Rules.DefaultExport
