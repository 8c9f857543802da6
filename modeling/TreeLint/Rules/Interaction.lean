import TreeLint.Rule.Basic
import TreeLint.Shape.Jsx
import TreeLint.Text.Case

/-! Elements that are clickable but not interactive need a role or a key handler. -/

namespace TreeLint.Rules.Interaction
open Message (slot)

def info : RuleInfo where
  type := "suggestion"
  description := "Flag non-interactive elements with onClick. Suggest role=\"button\" or using "
    ++ "<button>, and onKeyDown for accessibility."
  category := "Accessibility"
  messages := [("nonInteractive",
    "Non-interactive element <" ++ slot "tag" ++ "> with onClick detected. Consider using <button> "
      ++ "or adding role=\"button\" and onKeyDown for accessibility.")]
  schema := [.withIgnore []]
  fixable := none

def interactiveTags : List String :=
  ["button", "a", "input", "select", "textarea", "option", "details", "summary", "label", "iframe",
   "audio", "video", "area", "menuitem", "progress", "meter"]

/-- Whether a tag names an element that is not interactive: a tag that does not start like the name
of a component, outside the list. -/
def isPassiveTag (tag : String) : Bool :=
  match tag.toList with
  | [] => false
  | c :: _ => !Text.isRaised c && !interactiveTags.contains tag

def hasButtonRole (opening : Node) : Read Bool := do
  match ← Shape.findAttribute opening "role" with
  | none => return false
  | some role => return (← Shape.literalText (role.get "value")) = some "button"

def checkOpening (context : RuleContext) (c : Cursor) : Reporting Unit := do
  match ← Shape.elementTag c.node with
  | none => return ()
  | some tag =>
    if !isPassiveTag tag then return ()
    if (← Shape.findAttribute c.node "onClick").isNone then return ()
    let button ← hasButtonRole c.node
    let keyDown ← Shape.findAttribute c.node "onKeyDown"
    if !button && keyDown.isNone then context.reportAt c.node "nonInteractive" [("tag", tag)]

def rule : Rule where
  name := "no-focusable-non-interactive-elements"
  info := info
  listeners := Rule.whenRelevant (fun _ => .ok true)
    fun context => .ok [(⟨"JSXOpeningElement", .enter⟩, .stateless (checkOpening context))]

end TreeLint.Rules.Interaction
