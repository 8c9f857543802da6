import TreeLint.Proofs.Messages
import TreeLint.Proofs.Reporting
import TreeLint.Proofs.Table
import TreeLint.Registry

/-! What rules report. Every rule first tests whether a file concerns it, without regard to the
patterns of files to ignore, then passes over the files to ignore, and its listeners report nothing
but violations that the rule makes in its own name, with an entry for every slot of their
messages. -/

namespace TreeLint

/-- A rule has a message whose slots have some names. -/
def RuleInfo.Asks (info : RuleInfo) (messageId : String) (names : List String) : Prop :=
  ∃ template, info.messages.lookup messageId = some template ∧
    Message.Slots names template.toList

namespace RuleContext

variable {info : RuleInfo}

/-- What a violation is made of. -/
theorem violation_ok_iff {context : RuleContext} {spot : Spot} {messageId : String}
    {data : List (String × String)} {fix : Option Fix} {v : Violation} :
    context.violation spot messageId data fix = .ok v ↔ ∃ line column template,
      context.locate spot = .ok (line, column) ∧
      context.info.messages.lookup messageId = some template ∧
      v = {
        ruleId := context.ruleId
        messageId
        message := Message.interpolate template data
        file := context.filename
        line
        column
        severity := context.severity
        data
        fix := if context.info.fixable.isSome then fix else none } := by
  unfold violation
  rw [bind_ok_iff]
  constructor
  · rintro ⟨⟨line, column⟩, placed, made⟩
    dsimp only at made
    cases held : context.info.messages.lookup messageId with
    | none =>
      rw [held] at made
      cases made
    | some template =>
      rw [held] at made
      cases made
      exact ⟨line, column, template, placed, rfl, rfl⟩
  · rintro ⟨line, column, template, placed, held, rfl⟩
    refine ⟨⟨line, column⟩, placed, ?_⟩
    simp only [held]
    rfl

/-- A violation is one that the rule at work makes of a report, with an entry for each slot of the
message. -/
def Makes (context : RuleContext) (info : RuleInfo) (v : Violation) : Prop :=
  ∃ spot messageId data fix, info.Asks messageId (data.map (·.1)) ∧
    context.violation spot messageId data fix = .ok v

theorem ruleId_of_makes {context : RuleContext} {v : Violation} (made : context.Makes info v) :
    v.ruleId = context.ruleId := by
  obtain ⟨spot, messageId, data, fix, -, made⟩ := made
  obtain ⟨line, column, template, -, -, rfl⟩ := violation_ok_iff.mp made
  rfl

@[grind ←]
theorem report_makes (context : RuleContext) (spot : Spot) {messageId : String}
    {data : List (String × String)} (asks : info.Asks messageId (data.map (·.1)))
    (fix : Option Fix) : (context.report spot messageId data fix).Only (context.Makes info) := by
  unfold report
  intro v member
  cases made : context.violation spot messageId data fix with
  | error fault =>
    rw [made] at member
    cases member
  | ok violation =>
    rw [made] at member
    obtain rfl := List.mem_singleton.mp member
    exact ⟨spot, messageId, data, fix, asks, made⟩

@[grind ←]
theorem reportAt_makes (context : RuleContext) (n : Node) {messageId : String}
    {data : List (String × String)} (asks : info.Asks messageId (data.map (·.1))) :
    (context.reportAt n messageId data).Only (context.Makes info) :=
  context.report_makes (.node n) asks none

/-- Two rules work on one file in one setting, up to the files that they are to ignore. -/
structure AgreesWith (one two : RuleContext) : Prop where
  filename : one.filename = two.filename
  cwd : one.cwd = two.cwd
  host : one.host = two.host
  option? : ∀ key, key ≠ "ignore" → one.option? key = two.option? key

end RuleContext

/-- Whatever a listener is shown, it reports what the rule makes. -/
def Listener.MadeBy (context : RuleContext) (info : RuleInfo) (listener : Listener) : Prop :=
  ∀ visited memory, (listener visited memory).Only (context.Makes info)

theorem Listener.only_stateless {P : Violation → Prop} {look : Cursor → Reporting Unit}
    {c : Cursor} (only : (look c).Only P) (memory : Memory) :
    (stateless look (some c) memory).Only P :=
  Reporting.only_bind only fun _ => Reporting.only_pure _

theorem Listener.stateless_madeBy {context : RuleContext} {info : RuleInfo}
    {look : Cursor → Reporting Unit} (makes : ∀ c, (look c).Only (context.Makes info)) :
    (Listener.stateless look).MadeBy context info := by
  intro visited memory
  cases visited with
  | none => exact Reporting.only_bind (Reporting.only_lift _) fun _ => Reporting.only_pure _
  | some c => exact only_stateless (makes c) memory

/-- A rule that is set to work has no listeners for a file, or those of its own table. -/
theorem Rule.whenRelevant_ok {concerns : RuleContext → Read Bool}
    {body : RuleContext → Read Listeners} {context : RuleContext} {made : Listeners}
    (works : Rule.whenRelevant concerns body context = .ok made) :
    made = [] ∨ body context = .ok made := by
  obtain ⟨concerned, -, works⟩ := bind_ok_iff.mp works
  cases concerned with
  | false =>
    cases works
    exact .inl rfl
  | true =>
    obtain ⟨ignored, -, works⟩ := bind_ok_iff.mp works
    cases ignored with
    | false => exact .inr works
    | true =>
      cases works
      exact .inl rfl

/-- A rule that every file concerns passes over a file, or has the listeners of its own table. -/
theorem Rule.whenRelevant_always {table : RuleContext → Listeners} {context : RuleContext}
    {made : Listeners}
    (works : Rule.whenRelevant (fun _ => .ok true) (fun context => .ok (table context)) context =
      .ok made) :
    (context.isIgnored = .ok true ∧ made = []) ∨
      (context.isIgnored = .ok false ∧ made = table context) := by
  obtain ⟨concerned, tested, works⟩ := bind_ok_iff.mp works
  cases tested
  obtain ⟨ignored, tried, works⟩ := bind_ok_iff.mp works
  cases ignored with
  | true =>
    cases works
    exact .inl ⟨tried, rfl⟩
  | false =>
    cases works
    exact .inr ⟨tried, rfl⟩

/-- A rule tests whether a file concerns it, without regard to the patterns of files to ignore;
then it passes over the files to ignore; and its listeners report what it makes. -/
def Rule.Regular (rule : Rule) : Prop :=
  ∃ concerns body, rule.listeners = Rule.whenRelevant concerns body ∧
    (∀ one two : RuleContext, one.AgreesWith two → concerns one = concerns two) ∧
    ∀ context listeners, body context = .ok listeners →
      ∀ entry ∈ listeners, entry.2.MadeBy context rule.info

theorem Rule.regular_of_table {rule : Rule} (concerns : RuleContext → Read Bool)
    (table : RuleContext → Listeners)
    (form : rule.listeners = Rule.whenRelevant concerns fun context => .ok (table context))
    (blind : ∀ one two : RuleContext, one.AgreesWith two → concerns one = concerns two)
    (makes : ∀ context, ∀ entry ∈ table context, entry.2.MadeBy context rule.info) :
    rule.Regular := by
  refine ⟨concerns, _, form, blind, fun context listeners given => ?_⟩
  cases given
  exact makes context

namespace Rules
open Reporting RuleContext

variable (context : RuleContext)

namespace Typography

@[grind .]
theorem asks : info.Asks "useTypography" ["tag"] :=
  ⟨_, rfl, .concat (.concat (.concat (.concat (.concat (.literal (by decide)) (.named (by decide)))
    (.literal (by decide))) (.literal (by decide))) (.literal (by decide))) (.literal (by decide))⟩

theorem checkOpening_makes (c : Cursor) : (checkOpening context c).Only (context.Makes info) := by
  unfold checkOpening
  grind

theorem rule_regular : rule.Regular := by
  refine Rule.regular_of_table concerns _ rfl (fun one two agrees => ?_) fun context => ?_
  · rw [concerns, concerns, agrees.filename]
  · exact List.forall_mem_singleton.mpr (Listener.stateless_madeBy (checkOpening_makes context))

end Typography

namespace DirectColor

@[grind .]
theorem asks : info.Asks "noDirectColor" [] :=
  ⟨_, rfl, .concat (.literal (by decide)) (.literal (by decide))⟩

@[grind ←]
theorem checkText_makes (n : Node) (text : Option String) :
    (checkText context n text).Only (context.Makes info) := by
  unfold checkText
  grind

@[grind ←]
theorem checkValue_makes (place n : Node) :
    (checkValue context place n).Only (context.Makes info) := by
  unfold checkValue
  grind

theorem checkProperty_makes (t : Tree) : (checkProperty context t).Only (context.Makes info) := by
  unfold checkProperty
  grind

@[grind ←]
theorem checkProperties_makes (items : List Tree) :
    (checkProperties context items).Only (context.Makes info) := by
  induction items with
  | nil => exact only_pure ()
  | cons t rest ih => exact only_bind (checkProperty_makes context t) fun _ => ih

@[grind ←]
theorem checkExpression_makes (attrName : String) (place expression : Node) :
    (checkExpression context attrName place expression).Only (context.Makes info) := by
  unfold checkExpression
  grind

theorem checkAttribute_makes (c : Cursor) :
    (checkAttribute context c).Only (context.Makes info) := by
  unfold checkAttribute
  refine only_lift_bind fun name => ?_
  split
  · exact only_pure ()
  · split
    · exact only_pure ()
    · grind

theorem rule_regular : rule.Regular := by
  refine Rule.regular_of_table _ _ rfl (fun _ _ _ => rfl) fun context => ?_
  exact List.forall_mem_singleton.mpr (Listener.stateless_madeBy (checkAttribute_makes context))

end DirectColor

namespace ConstantName

@[grind .]
theorem asks : info.Asks "topLevelConstCaps" ["name"] :=
  ⟨_, rfl, .concat (.concat (.literal (by decide)) (.named (by decide))) (.literal (by decide))⟩

theorem checkDeclarator_makes (t : Tree) :
    (checkDeclarator context t).Only (context.Makes info) := by
  unfold checkDeclarator
  grind

@[grind ←]
theorem checkDeclarators_makes (items : List Tree) :
    (checkDeclarators context items).Only (context.Makes info) := by
  induction items with
  | nil => exact only_pure ()
  | cons t rest ih => exact only_bind (checkDeclarator_makes context t) fun _ => ih

theorem checkStatement_makes (t : Tree) : (checkStatement context t).Only (context.Makes info) := by
  unfold checkStatement
  grind

theorem checkStatements_makes (items : List Tree) :
    (checkStatements context items).Only (context.Makes info) := by
  induction items with
  | nil => exact only_pure ()
  | cons t rest ih => exact only_bind (checkStatement_makes context t) fun _ => ih

theorem rule_regular : rule.Regular := by
  refine Rule.regular_of_table concerns _ rfl (fun one two agrees => ?_) fun context => ?_
  · rw [concerns, concerns, name, name, agrees.filename]
  · refine List.forall_mem_singleton.mpr (Listener.stateless_madeBy fun c => ?_)
    exact only_lift_bind fun items => checkStatements_makes context items

end ConstantName

namespace Interaction

@[grind .]
theorem asks : info.Asks "nonInteractive" ["tag"] :=
  ⟨_, rfl, .concat (.concat (.concat (.literal (by decide)) (.named (by decide)))
    (.literal (by decide))) (.literal (by decide))⟩

theorem checkOpening_makes (c : Cursor) : (checkOpening context c).Only (context.Makes info) := by
  unfold checkOpening
  refine only_lift_bind fun tag => ?_
  split
  · exact only_pure ()
  · grind

theorem rule_regular : rule.Regular := by
  refine Rule.regular_of_table _ _ rfl (fun _ _ _ => rfl) fun context => ?_
  exact List.forall_mem_singleton.mpr (Listener.stateless_madeBy (checkOpening_makes context))

end Interaction

namespace FileName

@[grind .]
theorem asks : info.Asks "notKebabCase" ["filename"] :=
  ⟨_, rfl, .concat (.concat (.literal (by decide)) (.named (by decide))) (.literal (by decide))⟩

theorem checkName_makes (name : String) : (checkName context name).MadeBy context info := by
  intro visited memory
  unfold checkName
  split
  · exact only_bind (report_makes context _ asks _) fun _ => only_pure _
  · exact only_pure _

theorem rule_regular : rule.Regular := by
  refine ⟨_, listeners, rfl, fun _ _ _ => rfl, fun context made given => ?_⟩
  unfold listeners at given
  rw [bind_ok_iff] at given
  obtain ⟨extensions, -, given⟩ := given
  cases named : context.filename with
  | none =>
    rw [named] at given
    cases given
  | some filename =>
    simp only [named] at given
    split at given
    · cases given
      exact List.forall_mem_nil _
    · rw [bind_ok_iff] at given
      obtain ⟨chosen, -, given⟩ := given
      split at given
      · cases given
        exact List.forall_mem_nil _
      · obtain rfl := Except.ok.inj given
        rw [List.forall_mem_singleton]
        dsimp only
        exact checkName_makes context _

end FileName

namespace TypeName

@[grind .]
theorem asks_interface : info.Asks "badInterfaceName" ["name"] :=
  ⟨_, rfl, .concat (.concat (.literal (by decide)) (.named (by decide))) (.literal (by decide))⟩

@[grind .]
theorem asks_alias : info.Asks "badTypeName" ["name"] :=
  ⟨_, rfl, .concat (.concat (.literal (by decide)) (.named (by decide))) (.literal (by decide))⟩

theorem checkDeclaration_makes (mark : Char) {messageId : String}
    (asks : info.Asks messageId ["name"]) (c : Cursor) :
    (checkDeclaration context mark messageId c).Only (context.Makes info) := by
  unfold checkDeclaration
  grind

theorem concerns_blind (one two : RuleContext) (agrees : one.AgreesWith two) :
    concerns one = concerns two := by
  rw [concerns, concerns, name, name, agrees.filename]

theorem rule_regular : rule.Regular := by
  refine Rule.regular_of_table concerns _ rfl concerns_blind fun context => ?_
  refine List.forall_mem_cons.mpr ⟨?_, List.forall_mem_singleton.mpr ?_⟩
  · exact Listener.stateless_madeBy (checkDeclaration_makes context _ asks_interface)
  · exact Listener.stateless_madeBy (checkDeclaration_makes context _ asks_alias)

end TypeName

namespace DefaultExport

@[grind .]
theorem asks : info.Asks "noDefaultExport" [] :=
  ⟨_, rfl, .literal (by decide)⟩

theorem checkExport_makes : (checkExport context).MadeBy context info := by
  intro visited memory
  exact only_bind (report_makes context _ asks _) fun _ => only_pure _

theorem rule_regular : rule.Regular := by
  refine Rule.regular_of_table _ _ rfl (fun _ _ _ => rfl) fun context => ?_
  exact List.forall_mem_singleton.mpr (checkExport_makes context)

end DefaultExport

namespace InlineArrow

@[grind .]
theorem asks : info.Asks "noInlineArrow" [] :=
  ⟨_, rfl, .concat (.literal (by decide)) (.literal (by decide))⟩

theorem checkAttribute_makes (c : Cursor) :
    (checkAttribute context c).Only (context.Makes info) := by
  unfold checkAttribute
  grind

theorem rule_regular : rule.Regular := by
  refine Rule.regular_of_table _ _ rfl (fun _ _ _ => rfl) fun context => ?_
  exact List.forall_mem_singleton.mpr (Listener.stateless_madeBy (checkAttribute_makes context))

end InlineArrow

namespace MemberOrder

@[grind .]
theorem asks : info.Asks "requiredBeforeOptional" ["name", "parent"] :=
  ⟨_, rfl, .concat (.concat (.concat (.concat (.literal (by decide)) (.named (by decide)))
    (.literal (by decide))) (.named (by decide))) (.literal (by decide))⟩

@[grind ←]
theorem checkMembers_makes (parent : String) (optionalSeen : Bool) (items : List Tree) :
    (checkMembers context parent optionalSeen items).Only (context.Makes info) := by
  induction items generalizing optionalSeen with
  | nil => exact only_pure ()
  | cons t rest ih =>
    unfold checkMembers
    refine only_lift_bind fun member => only_lift_bind fun named => ?_
    split
    · exact ih optionalSeen
    · split
      · exact ih true
      · split
        · exact only_bind (reportAt_makes context _ asks) fun _ => ih optionalSeen
        · exact ih optionalSeen

theorem checkInterface_makes (c : Cursor) :
    (checkInterface context c).Only (context.Makes info) := by
  unfold checkInterface
  grind

theorem checkAlias_makes (c : Cursor) : (checkAlias context c).Only (context.Makes info) := by
  unfold checkAlias
  grind

theorem rule_regular : rule.Regular := by
  refine Rule.regular_of_table _ _ rfl TypeName.concerns_blind fun context => ?_
  refine List.forall_mem_cons.mpr ⟨Listener.stateless_madeBy (checkInterface_makes context),
    List.forall_mem_singleton.mpr ?_⟩
  exact Listener.stateless_madeBy (checkAlias_makes context)

end MemberOrder

namespace ImportPath

@[grind .]
theorem asks : info.Asks "noRelativeImport" ["importPath", "aliases"] :=
  ⟨_, rfl, .concat (.concat (.concat (.concat (.concat (.literal (by decide)) (.named (by decide)))
    (.literal (by decide))) (.literal (by decide))) (.named (by decide))) (.literal (by decide))⟩

theorem checkImport_makes (aliases : List Value) (ignored : PathFilter) (c : Cursor) :
    (checkImport context aliases ignored c).Only (context.Makes info) := by
  unfold checkImport
  refine only_lift_bind fun source => ?_
  split
  · exact only_pure ()
  · grind

theorem rule_regular : rule.Regular := by
  refine ⟨_, _, rfl, fun _ _ _ => rfl, fun context made given => ?_⟩
  obtain ⟨aliases, -, given⟩ := bind_ok_iff.mp given
  obtain ⟨patterns, -, given⟩ := bind_ok_iff.mp given
  obtain ⟨ignored, -, given⟩ := bind_ok_iff.mp given
  cases given
  exact List.forall_mem_singleton.mpr
    (Listener.stateless_madeBy (checkImport_makes context aliases ignored))

end ImportPath

namespace NestedComponent

@[grind .]
theorem asks : info.Asks "noNestedComponent" ["name"] :=
  ⟨_, rfl, .concat (.concat (.literal (by decide)) (.named (by decide))) (.literal (by decide))⟩

@[grind ←]
theorem openComponent_makes (c : Cursor) (memory : Memory) :
    (openComponent context c memory).Only (context.Makes info) := by
  unfold openComponent
  refine only_lift_bind fun name => ?_
  split
  · exact only_bind (reportAt_makes context _ asks) fun _ => only_pure _
  · exact only_pure _

theorem enter_makes (isComponent : Cursor → Read Bool) :
    (enter context isComponent).MadeBy context info := by
  intro visited memory
  unfold enter
  grind

theorem leave_makes : leave.MadeBy context info := by
  intro visited memory
  unfold leave
  grind

theorem rule_regular : rule.Regular := by
  refine Rule.regular_of_table _ _ rfl (fun _ _ _ => rfl) fun context => ?_
  simp only [List.forall_mem_cons, List.not_mem_nil, false_implies, implies_true, and_true]
  exact ⟨enter_makes context _, leave_makes context, enter_makes context _, leave_makes context,
    enter_makes context _, leave_makes context⟩

end NestedComponent

namespace DocComment

theorem asks_infoFor (description : String) {before after : String}
    (bare : Message.Slots [] before.toList) (bare' : Message.Slots [] after.toList) :
    (infoFor description (before ++ Message.slot "name" ++ after)).Asks "missingJSDoc" ["name"] :=
  ⟨_, List.lookup_cons_self, .concat (.concat bare (.named (by decide))) bare'⟩

theorem isInFolders_blind (one two : RuleContext) (agrees : one.AgreesWith two) :
    isInFolders one = isInFolders two := by
  rw [isInFolders, isInFolders, agrees.option? "folders" (by decide), agrees.filename, agrees.cwd,
    agrees.host]

section

variable (wants : Option String → Bool) {info : RuleInfo}
  (asks : info.Asks "missingJSDoc" ["name"])
include asks

@[grind ←]
theorem require_makes (statement : Cursor) (n : Node) (name : Option String) :
    (require context wants statement n name).Only (context.Makes info) := by
  unfold require
  grind

theorem checkFunction_makes (c : Cursor) :
    (checkFunction context wants c).Only (context.Makes info) := by
  unfold checkFunction
  grind

theorem checkDeclarator_makes (statement : Cursor) (t : Tree) :
    (checkDeclarator context wants statement t).Only (context.Makes info) := by
  unfold checkDeclarator
  grind

@[grind ←]
theorem checkDeclarators_makes (statement : Cursor) (items : List Tree) :
    (checkDeclarators context wants statement items).Only (context.Makes info) := by
  induction items with
  | nil => exact only_pure ()
  | cons t rest ih =>
    exact only_bind (checkDeclarator_makes context wants asks statement t) fun _ => ih

theorem checkDeclaration_makes (c : Cursor) :
    (checkDeclaration context wants c).Only (context.Makes info) := by
  unfold checkDeclaration
  grind

theorem ruleFor_regular (name : String) : (ruleFor name info wants).Regular := by
  refine Rule.regular_of_table isInFolders _ rfl isInFolders_blind fun context => ?_
  refine List.forall_mem_cons.mpr ⟨?_, List.forall_mem_singleton.mpr ?_⟩
  · exact Listener.stateless_madeBy (checkFunction_makes context wants asks)
  · exact Listener.stateless_madeBy (checkDeclaration_makes context wants asks)

end

theorem componentRule_regular : componentRule.Regular :=
  ruleFor_regular _ (asks_infoFor _ (.literal (by decide)) (.literal (by decide))) _

theorem hookRule_regular : hookRule.Regular :=
  ruleFor_regular _ (asks_infoFor _ (.literal (by decide)) (.literal (by decide))) _

theorem rootFunctionRule_regular : rootFunctionRule.Regular :=
  ruleFor_regular _ (asks_infoFor _ (.literal (by decide)) (.literal (by decide))) _

end DocComment

namespace ClassName

@[grind .]
theorem asks_utility : utilityInfo.Asks "useCn" [] := ⟨_, rfl, .literal (by decide)⟩

theorem asks_blank (description : String) {messageId message : String}
    (bare : Message.Slots [] message.toList) :
    (blankInfo description messageId message).Asks messageId [] :=
  ⟨_, List.lookup_cons_self, bare⟩

theorem checkTemplate_makes (allowed : List String) (c : Cursor) :
    (checkTemplate context allowed c).Only (context.Makes utilityInfo) := by
  unfold checkTemplate
  refine only_lift_bind fun name => ?_
  split
  · exact only_pure ()
  · refine only_lift_bind fun value => ?_
    split
    · exact only_pure ()
    · grind

theorem checkBlank_makes {info : RuleInfo} {messageId : String} (asks : info.Asks messageId [])
    (c : Cursor) :
    (checkBlank context messageId c).Only (context.Makes info) := by
  unfold checkBlank
  grind

theorem utilityRule_regular : utilityRule.Regular := by
  refine ⟨_, _, rfl, fun _ _ _ => rfl, fun context made given => ?_⟩
  obtain ⟨items, -, given⟩ := bind_ok_iff.mp given
  obtain ⟨allowed, -, given⟩ := bind_ok_iff.mp given
  cases given
  exact List.forall_mem_singleton.mpr
    (Listener.stateless_madeBy (checkTemplate_makes context allowed))

theorem blankRule_regular (name : String) {info : RuleInfo} {messageId : String}
    (asks : info.Asks messageId []) : (blankRule name info messageId).Regular := by
  refine Rule.regular_of_table _ _ rfl (fun _ _ _ => rfl) fun context => ?_
  exact List.forall_mem_singleton.mpr
    (Listener.stateless_madeBy (checkBlank_makes context asks))

theorem emptyRule_regular : emptyRule.Regular :=
  blankRule_regular _ (asks_blank _ (.literal (by decide)))

theorem emptyTailwindRule_regular : emptyTailwindRule.Regular :=
  blankRule_regular _ (asks_blank _ (.literal (by decide)))

end ClassName

namespace CurlyText

@[grind .]
theorem asks : info.Asks "unnecessaryCurly" ["prop"] :=
  ⟨_, rfl, .concat (.concat (.literal (by decide)) (.named (by decide))) (.literal (by decide))⟩

theorem checkAttribute_makes (c : Cursor) :
    (checkAttribute context c).Only (context.Makes info) := by
  unfold checkAttribute
  refine only_lift_bind fun value => ?_
  split
  · exact only_pure ()
  · split
    · exact only_pure ()
    · refine only_lift_bind fun text => ?_
      split
      · exact only_pure ()
      · grind

theorem rule_regular : rule.Regular := by
  refine Rule.regular_of_table _ _ rfl (fun _ _ _ => rfl) fun context => ?_
  exact List.forall_mem_singleton.mpr (Listener.stateless_madeBy (checkAttribute_makes context))

end CurlyText

namespace Fragment

@[grind .]
theorem asks : info.Asks "unnecessaryFragment" [] :=
  ⟨_, rfl, .literal (by decide)⟩

@[grind ←]
theorem checkFragment_makes (c : Cursor) : (checkFragment context c).Only (context.Makes info) := by
  unfold checkFragment
  grind

theorem checkElement_makes (c : Cursor) : (checkElement context c).Only (context.Makes info) := by
  unfold checkElement
  grind

theorem rule_regular : rule.Regular := by
  refine Rule.regular_of_table _ _ rfl (fun _ _ _ => rfl) fun context => ?_
  refine List.forall_mem_cons.mpr ⟨Listener.stateless_madeBy (checkFragment_makes context),
    List.forall_mem_singleton.mpr ?_⟩
  exact Listener.stateless_madeBy (checkElement_makes context)

end Fragment

end Rules

namespace Registry
open Rules

theorem standard_rules : standard.rules = allRules := by rfl

theorem standard_regular : ∀ rule ∈ standard.rules, rule.Regular := by
  rw [standard_rules]
  simp only [allRules, List.forall_mem_cons, List.not_mem_nil, false_implies, implies_true,
    and_true]
  exact ⟨Typography.rule_regular, DirectColor.rule_regular, ConstantName.rule_regular,
    Interaction.rule_regular, FileName.rule_regular, TypeName.rule_regular,
    DefaultExport.rule_regular, InlineArrow.rule_regular, MemberOrder.rule_regular,
    ImportPath.rule_regular, NestedComponent.rule_regular, DocComment.componentRule_regular,
    DocComment.hookRule_regular, DocComment.rootFunctionRule_regular,
    ClassName.utilityRule_regular, ClassName.emptyRule_regular, ClassName.emptyTailwindRule_regular,
    CurlyText.rule_regular, Fragment.rule_regular⟩

end Registry

end TreeLint
