import TreeLint.Config.Error
import TreeLint.Rules.ClassName
import TreeLint.Rules.ConstantName
import TreeLint.Rules.CurlyText
import TreeLint.Rules.DefaultExport
import TreeLint.Rules.DirectColor
import TreeLint.Rules.DocComment
import TreeLint.Rules.FileName
import TreeLint.Rules.Fragment
import TreeLint.Rules.ImportPath
import TreeLint.Rules.InlineArrow
import TreeLint.Rules.Interaction
import TreeLint.Rules.MemberOrder
import TreeLint.Rules.NestedComponent
import TreeLint.Rules.TypeName
import TreeLint.Rules.Typography
import TreeLint.Value.Basic

/-! The registry: all rules by name, and the preset of recommended severities. The order of the
registry is the order in which rules look at a node. -/

namespace TreeLint

/-- Rules of different names, with the severities that are recommended for them. -/
structure Registry where
  rules : List Rule
  recommended : List (String × Severity)

namespace Registry

def namespaceName : String := "eslint-frontend-rules"

def presetName : String := "recommended"

def qualified (name : String) : String := namespaceName ++ "/" ++ name

def allRules : List Rule :=
  [Rules.Typography.rule, Rules.DirectColor.rule, Rules.ConstantName.rule, Rules.Interaction.rule,
   Rules.FileName.rule, Rules.TypeName.rule, Rules.DefaultExport.rule, Rules.InlineArrow.rule,
   Rules.MemberOrder.rule, Rules.ImportPath.rule, Rules.NestedComponent.rule,
   Rules.DocComment.componentRule, Rules.DocComment.hookRule, Rules.DocComment.rootFunctionRule,
   Rules.ClassName.utilityRule, Rules.ClassName.emptyRule, Rules.ClassName.emptyTailwindRule,
   Rules.CurlyText.rule, Rules.Fragment.rule]

def gentleRules : List String :=
  ["no-inline-arrow-functions-in-jsx", "enforce-alias-import-paths", "require-jsdoc-on-component",
   "require-jsdoc-on-hook", "require-jsdoc-on-root-function", "enforce-classname-utility",
   "enforce-no-empty-classname-utility", "no-empty-tailwind-class",
   "no-unnecessary-curly-in-props", "no-unnecessary-fragment"]

def recommendedSeverity (name : String) : Severity :=
  if gentleRules.contains name then .warn else .error

/-- The registry of some rules. Of two rules of one name, the later takes the place of the
earlier. -/
def ofRules (rules : List Rule) : Registry :=
  let kept := (Table.ofEntries (rules.map fun rule => (rule.name, rule))).map (·.2)
  { rules := kept
    recommended := kept.map fun rule => (qualified rule.name, recommendedSeverity rule.name) }

def standard : Registry := ofRules allRules

def rule? (registry : Registry) (name : String) : Option Rule :=
  registry.rules.find? (·.name == name)

def bareName (key : String) : String :=
  let mark := (namespaceName ++ "/").toList
  if mark.isPrefixOf key.toList then String.ofList (key.toList.drop mark.length) else key

def resolve (registry : Registry) (key : String) : Except ConfigError Rule :=
  match registry.rule? (bareName key) with
  | some rule => .ok rule
  | none => .error (.unknownRule key)

def preset (registry : Registry) (name : String) : Read (List (String × Severity)) :=
  if name = presetName then
    .ok (registry.recommended.map fun (key, severity) => (bareName key, severity))
  else .error (.noEntry name)

end Registry

end TreeLint
