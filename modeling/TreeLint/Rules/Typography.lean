import TreeLint.Rule.Basic
import TreeLint.Shape.Jsx
import TreeLint.Shape.Spelling

/-! Running text and headings go through the typography components. -/

namespace TreeLint.Rules.Typography
open Message (slot)

def info : RuleInfo where
  type := "problem"
  description := "Enforce usage of Typography components instead of raw HTML tags"
  category := "Best Practices"
  messages := [("useTypography",
    "Raw <" ++ slot "tag" ++ "> tag detected. For consistent design and theming, use the "
      ++ "corresponding Typography component (e.g., TypographyP, TypographyH1, "
      ++ "TypographyBlockquote, etc.) instead. Import these from components/ui/typography. "
      ++ "Native tags are only allowed in typography.tsx.")]
  schema := [.withIgnore []]
  fixable := none

def rawTags : List String := ["p", "span", "h1", "h2", "h3", "h4", "h5", "h6", "blockquote"]

/-- The file of the components themselves, which renders the tags. -/
def isTypographyFile (filename : String) : Bool :=
  "typography.tsx".toList.isSuffixOf (Spelling.withoutFinalFeed filename.toList)

def concerns (context : RuleContext) : Read Bool :=
  match context.filename with
  | some name => .ok !isTypographyFile name
  | none => .error .wrongKind

def checkOpening (context : RuleContext) (c : Cursor) : Reporting Unit := do
  match ← Shape.elementTag c.node with
  | some tag =>
    if rawTags.contains tag then context.reportAt c.node "useTypography" [("tag", tag)]
  | none => return ()

def rule : Rule where
  name := "enforce-typography-components"
  info := info
  listeners := Rule.whenRelevant concerns fun context => .ok
    [(⟨"JSXOpeningElement", .enter⟩, .stateless (checkOpening context))]

end TreeLint.Rules.Typography
