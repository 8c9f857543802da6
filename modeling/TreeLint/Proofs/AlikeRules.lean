import TreeLint.Proofs.AlikeShapes
import TreeLint.Proofs.RuleReports

/-! Rules do not tell alike trees apart. A rule is set to work without regard to the tree, and each
of its listeners does the same at alike nodes: it makes the same reports and keeps the same memory,
or stops at the same fault. -/

namespace TreeLint

namespace RuleContext

def withRoot (context : RuleContext) (root : Node) : RuleContext :=
  { context with source := { context.source with root } }

variable (context : RuleContext) (root : Node) {n m : Node}

theorem withRoot_host : (context.withRoot root).host = context.host := rfl

theorem report_alike (alike : n.Alike m) (messageId : String) (data : List (String × String))
    (fix : Option Fix) : context.report (.node n) messageId data fix =
      (context.withRoot root).report (.node m) messageId data fix := by
  have place : context.locate (.node n) = (context.withRoot root).locate (.node m) :=
    context.source.nodeLocation_alike alike
  unfold report violation
  rw [place]
  rfl

theorem reportAt_alike (alike : n.Alike m) (messageId : String) (data : List (String × String)) :
    context.reportAt n messageId data = (context.withRoot root).reportAt m messageId data :=
  context.report_alike root alike messageId data none

end RuleContext

def Listener.Alike (one two : Listener) : Prop :=
  ∀ c d : Cursor, c.Alike d → ∀ memory, one (some c) memory = two (some d) memory

theorem Listener.alike_stateless {look watch : Cursor → Reporting Unit}
    (same : ∀ {c d : Cursor}, c.Alike d → look c = watch d) :
    (Listener.stateless look).Alike (.stateless watch) := by
  intro c d alike memory
  simp only [Listener.stateless, same alike]

/-- Listeners that wait for the same visits, one by one, and do the same at alike nodes. -/
def Listeners.Alike : Listeners → Listeners → Prop :=
  List.Forall₂ fun one two => one.1 = two.1 ∧ one.2.Alike two.2

/-- Whatever the tree, a rule is set to work in one way. -/
def Rule.Steady (rule : Rule) : Prop :=
  ∀ (context : RuleContext) (root : Node),
    Read.Both Listeners.Alike (rule.listeners context) (rule.listeners (context.withRoot root))

theorem Rule.steady_of_form {rule : Rule} {concerns : RuleContext → Read Bool}
    {body : RuleContext → Read Listeners} (form : rule.listeners = Rule.whenRelevant concerns body)
    (blind : ∀ context root, concerns (context.withRoot root) = concerns context)
    (steady : ∀ (context : RuleContext) (root : Node),
      Read.Both Listeners.Alike (body context) (body (context.withRoot root))) :
    rule.Steady := by
  intro context root
  have ignored : (context.withRoot root).isIgnored = context.isIgnored := rfl
  rw [form]
  unfold Rule.whenRelevant
  rw [blind, ignored]
  apply Read.Both.after
  intro concerned
  split
  · exact .ok .nil
  · apply Read.Both.after
    intro passed
    split
    · exact .ok .nil
    · exact steady context root

namespace Rules
open RuleContext Shape Listener
open Read (Both)

variable (context : RuleContext) (root : Node)
variable {c d : Cursor} {n m : Node} {t u : Tree} {items others : List Tree}

namespace Typography

theorem checkOpening_alike (alike : c.Alike d) :
    checkOpening context c = checkOpening (context.withRoot root) d := by
  unfold checkOpening
  simp only [elementTag_alike alike.node, context.reportAt_alike root alike.node]

theorem rule_steady : rule.Steady :=
  Rule.steady_of_form rfl (fun _ _ => rfl) fun context root =>
    .ok (.cons ⟨rfl, alike_stateless (checkOpening_alike context root)⟩ .nil)

end Typography

namespace DirectColor

theorem checkText_alike (alike : n.Alike m) (text : Option String) :
    checkText context n text = checkText (context.withRoot root) m text := by
  unfold checkText
  rw [context.reportAt_alike root alike]

theorem checkValue_alike {place spot : Node} (there : place.Alike spot) (alike : n.Alike m) :
    checkValue context place n = checkValue (context.withRoot root) spot m := by
  unfold checkValue
  simp only [alike.type, (alike.field "value" rfl).string?, templateText_alike alike,
    checkText_alike context root there]

theorem checkProperty_alike (alike : t.Alike u) :
    checkProperty context t = checkProperty (context.withRoot root) u := by
  apply alike.asNode.lift_bind_eq
  intro n m property
  simp only [property.type, identifierName_alike (property.field "key" rfl)]
  split
  · rfl
  · apply bind_congr
    intro key
    split
    · rfl
    · split
      · rfl
      · apply (property.field "value" rfl).lift_at_eq
        · rfl
        · intro n m value
          exact checkValue_alike context root value value

theorem checkProperties_alike (alike : List.Forall₂ Tree.Alike items others) :
    checkProperties context items = checkProperties (context.withRoot root) others := by
  induction alike with
  | nil => rfl
  | cons here _ ih =>
    rw [checkProperties, checkProperties, checkProperty_alike context root here, ih]

theorem checkExpression_alike (attrName : String) {place spot : Node} (there : place.Alike spot)
    (alike : n.Alike m) : checkExpression context attrName place n =
      checkExpression (context.withRoot root) attrName spot m := by
  unfold checkExpression
  simp only [alike.type, checkValue_alike context root there alike]
  split
  · split
    · apply (alike.field "properties" rfl).items.lift_bind_eq
      intro items others
      exact checkProperties_alike context root
    · rfl
  · rfl

theorem checkAttribute_alike (alike : c.Alike d) :
    checkAttribute context c = checkAttribute (context.withRoot root) d := by
  unfold checkAttribute
  rw [attributeName_alike alike.node]
  apply bind_congr
  intro name
  split
  · rfl
  · split
    · rfl
    · apply (alike.node.field "value" rfl).lift_at_eq
      · rfl
      · intro n m value
        simp only [value.type, (value.field "value" rfl).string?,
          checkText_alike context root value]
        split
        · rfl
        · split
          · apply (value.field "expression" rfl).lift_at_eq
            · rfl
            · intro _ _ expression
              exact checkExpression_alike context root _ value expression
          · rfl

theorem rule_steady : rule.Steady :=
  Rule.steady_of_form rfl (fun _ _ => rfl) fun context root =>
    .ok (.cons ⟨rfl, alike_stateless (checkAttribute_alike context root)⟩ .nil)

end DirectColor

namespace ConstantName

theorem checkDeclarator_alike (alike : t.Alike u) :
    checkDeclarator context t = checkDeclarator (context.withRoot root) u := by
  apply alike.asNode.lift_bind_eq
  intro n m declarator
  simp only [isFunctionValue_alike (declarator.field "init" rfl)]
  apply bind_congr
  intro function
  split
  · rfl
  · apply (declarator.field "id" rfl).lift_at_eq
    · rfl
    · intro n m binding
      simp only [binding.type, binding.nameText, context.reportAt_alike root binding]

theorem checkDeclarators_alike (alike : List.Forall₂ Tree.Alike items others) :
    checkDeclarators context items = checkDeclarators (context.withRoot root) others := by
  induction alike with
  | nil => rfl
  | cons here _ ih =>
    rw [checkDeclarators, checkDeclarators, checkDeclarator_alike context root here, ih]

theorem checkStatement_alike (alike : t.Alike u) :
    checkStatement context t = checkStatement (context.withRoot root) u := by
  apply alike.asNode.lift_bind_eq
  intro n m statement
  simp only [statement.type, (statement.field "kind" rfl).string?]
  split
  · apply (statement.field "declarations" rfl).items.lift_bind_eq
    intro items others
    exact checkDeclarators_alike context root
  · rfl

theorem checkStatements_alike (alike : List.Forall₂ Tree.Alike items others) :
    checkStatements context items = checkStatements (context.withRoot root) others := by
  induction alike with
  | nil => rfl
  | cons here _ ih =>
    rw [checkStatements, checkStatements, checkStatement_alike context root here, ih]

theorem rule_steady : rule.Steady := by
  apply Rule.steady_of_form rfl (fun _ _ => rfl)
  intro context root
  refine .ok (.cons ⟨rfl, alike_stateless ?_⟩ .nil)
  intro c d alike
  apply (alike.node.field "body" rfl).items.lift_bind_eq
  intro items others
  exact checkStatements_alike context root

end ConstantName

namespace Interaction

theorem isNone_alike {found other : Option Node} (alike : Option.Rel Node.Alike found other) :
    found.isNone = other.isNone := by
  cases alike <;> rfl

theorem hasButtonRole_alike (alike : n.Alike m) : hasButtonRole n = hasButtonRole m := by
  apply (findAttribute_alike alike "role").bind_eq
  intro found other related
  cases related with
  | none => rfl
  | some role => simp only [literalText_alike (role.field "value" rfl)]

theorem checkOpening_alike (alike : c.Alike d) :
    checkOpening context c = checkOpening (context.withRoot root) d := by
  unfold checkOpening
  rw [elementTag_alike alike.node, hasButtonRole_alike alike.node]
  apply bind_congr
  intro tag
  split
  · rfl
  · split
    · rfl
    · apply (findAttribute_alike alike.node "onClick").lift_bind_eq
      intro click other clicks
      rw [isNone_alike clicks]
      split
      · rfl
      · apply bind_congr
        intro button
        apply (findAttribute_alike alike.node "onKeyDown").lift_bind_eq
        intro keyDown other keys
        rw [isNone_alike keys, context.reportAt_alike root alike.node]

theorem rule_steady : rule.Steady :=
  Rule.steady_of_form rfl (fun _ _ => rfl) fun context root =>
    .ok (.cons ⟨rfl, alike_stateless (checkOpening_alike context root)⟩ .nil)

end Interaction

namespace FileName

theorem checkName_alike (name : String) :
    (checkName context name).Alike (checkName (context.withRoot root) name) :=
  fun _ _ _ _ => rfl

theorem listeners_alike :
    Both Listeners.Alike (listeners context) (listeners (context.withRoot root)) := by
  have asked : (context.withRoot root).optionItems = context.optionItems := rfl
  have named : (context.withRoot root).filename = context.filename := rfl
  unfold listeners
  rw [asked, named]
  apply Both.after
  intro extensions
  cases context.filename with
  | none => exact .error .wrongKind
  | some filename =>
    dsimp only
    split
    · exact .ok .nil
    · apply Both.after
      intro ends
      split
      · exact .ok .nil
      · refine .ok (.cons ⟨rfl, ?_⟩ .nil)
        dsimp only
        exact checkName_alike context root (baseName filename)

theorem rule_steady : rule.Steady :=
  Rule.steady_of_form rfl (fun _ _ => rfl) listeners_alike

end FileName

namespace TypeName

theorem checkDeclaration_alike (mark : Char) (messageId : String) (alike : c.Alike d) :
    checkDeclaration context mark messageId c =
      checkDeclaration (context.withRoot root) mark messageId d := by
  apply (alike.node.field "id" rfl).lift_at_eq
  · rfl
  · intro n m id
    simp only [id.nameText, context.reportAt_alike root id]

theorem rule_steady : rule.Steady :=
  Rule.steady_of_form rfl (fun _ _ => rfl) fun context root =>
    .ok (.cons ⟨rfl, alike_stateless (checkDeclaration_alike context root _ _)⟩
      (.cons ⟨rfl, alike_stateless (checkDeclaration_alike context root _ _)⟩ .nil))

end TypeName

namespace DefaultExport

theorem checkExport_alike : (checkExport context).Alike (checkExport (context.withRoot root)) := by
  intro c d alike memory
  unfold checkExport
  simp only [context.report_alike root alike.node]

theorem rule_steady : rule.Steady :=
  Rule.steady_of_form rfl (fun _ _ => rfl) fun context root =>
    .ok (.cons ⟨rfl, checkExport_alike context root⟩ .nil)

end DefaultExport

namespace InlineArrow

theorem checkAttribute_alike (alike : c.Alike d) :
    checkAttribute context c = checkAttribute (context.withRoot root) d := by
  apply (alike.node.field "value" rfl).lift_at_eq
  · rfl
  · intro n m value
    simp only [value.type, context.reportAt_alike root value]
    split
    · rfl
    · apply (value.field "expression" rfl).lift_at_eq
      · rfl
      · intro n m expression
        simp only [expression.type]

theorem rule_steady : rule.Steady :=
  Rule.steady_of_form rfl (fun _ _ => rfl) fun context root =>
    .ok (.cons ⟨rfl, alike_stateless (checkAttribute_alike context root)⟩ .nil)

end InlineArrow

namespace MemberOrder

theorem membersOf_alike (alike : t.Alike u) :
    Both (List.Forall₂ Tree.Alike) (membersOf t) (membersOf u) := by
  apply alike.at_both
  · exact .ok .nil
  · intro n m container
    have body := container.field "body" rfl
    have members := container.field "members" rfl
    dsimp only
    generalize n.get "body" = one at body
    generalize m.get "body" = two at body
    generalize n.get "members" = three at members
    generalize m.get "members" = four at members
    cases body with
    | list length inside => exact .ok (Tree.alike_list_iff.mp (.list length inside))
    | value v =>
      cases members with
      | list length inside => exact .ok (Tree.alike_list_iff.mp (.list length inside))
      | value v => exact .ok .nil
      | node keys inside => exact .ok .nil
    | node keys inside =>
      cases members with
      | list length inside => exact .ok (Tree.alike_list_iff.mp (.list length inside))
      | value v => exact .ok .nil
      | node keys inside => exact .ok .nil

/-- Alike keys with one name. -/
def NamedAlike (one two : Node × String) : Prop := one.1.Alike two.1 ∧ one.2 = two.2

theorem namedKey?_alike (alike : n.Alike m) :
    Both (Option.Rel NamedAlike) (namedKey? n) (namedKey? m) := by
  unfold namedKey?
  rw [alike.type]
  split
  · exact .ok .none
  · apply (alike.field "key" rfl).at_both
    · exact .ok .none
    · intro n m key
      dsimp only
      rw [key.nameText]
      cases m.nameText.filter (· != "") with
      | none => exact .ok .none
      | some name => exact .ok (.some ⟨key, rfl⟩)

theorem checkMembers_alike (parent : String) (optionalSeen : Bool)
    (alike : List.Forall₂ Tree.Alike items others) :
    checkMembers context parent optionalSeen items =
      checkMembers (context.withRoot root) parent optionalSeen others := by
  induction alike generalizing optionalSeen with
  | nil => rfl
  | cons here _ ih =>
    apply here.asNode.lift_bind_eq
    intro n m member
    apply (namedKey?_alike member).lift_bind_eq
    intro found other related
    cases related with
    | none => exact ih optionalSeen
    | @some one two named =>
      obtain ⟨key, name⟩ := one
      obtain ⟨spot, _⟩ := two
      obtain ⟨keys, rfl⟩ := named
      simp only [(member.field "optional" rfl).isTruthy, context.reportAt_alike root keys, ih]

theorem declaredName_alike (alike : n.Alike m) : declaredName n = declaredName m := by
  have id := alike.field "id" rfl
  unfold declaredName
  dsimp only
  rw [id.isTruthy]
  split
  · apply id.asNode.bind_eq
    intro n m id
    rw [id.nameText]
  · rfl

theorem checkInterface_alike (alike : c.Alike d) :
    checkInterface context c = checkInterface (context.withRoot root) d := by
  unfold checkInterface
  rw [declaredName_alike alike.node]
  apply bind_congr
  intro parent
  apply (membersOf_alike (alike.node.field "body" rfl)).lift_bind_eq
  intro items others
  exact checkMembers_alike context root parent false

theorem checkAlias_alike (alike : c.Alike d) :
    checkAlias context c = checkAlias (context.withRoot root) d := by
  apply (alike.node.field "typeAnnotation" rfl).lift_at_eq
  · rfl
  · intro n m aliased
    simp only [aliased.type, declaredName_alike alike.node]
    split
    · rfl
    · apply bind_congr
      intro parent
      apply (membersOf_alike aliased.toTree).lift_bind_eq
      intro items others
      exact checkMembers_alike context root parent false

theorem rule_steady : rule.Steady :=
  Rule.steady_of_form rfl (fun _ _ => rfl) fun context root =>
    .ok (.cons ⟨rfl, alike_stateless (checkInterface_alike context root)⟩
      (.cons ⟨rfl, alike_stateless (checkAlias_alike context root)⟩ .nil))

end MemberOrder

namespace ImportPath

theorem checkImport_alike (aliases : List Value) (ignored : PathFilter) (alike : c.Alike d) :
    checkImport context aliases ignored c =
      checkImport (context.withRoot root) aliases ignored d := by
  apply (alike.node.field "source" rfl).lift_at_eq
  · rfl
  · intro n m source
    simp only [(source.field "value" rfl).string?, context.reportAt_alike root source]

theorem rule_steady : rule.Steady := by
  apply Rule.steady_of_form rfl (fun _ _ => rfl)
  intro context root
  apply Both.after (context.optionItems "aliases" ["@"])
  intro aliases
  apply Both.after context.ignorePatterns
  intro patterns
  apply Both.after (PathFilter.ofPatterns patterns none context.host.pathSpec)
  intro ignored
  exact .ok (.cons ⟨rfl, alike_stateless (checkImport_alike context root aliases ignored)⟩ .nil)

end ImportPath

namespace NestedComponent

theorem openComponent_alike (alike : c.Alike d) (memory : Memory) :
    openComponent context c memory = openComponent (context.withRoot root) d memory := by
  unfold openComponent
  simp only [identifierName_alike (alike.node.field "id" rfl),
    context.reportAt_alike root alike.node, alike.address]

theorem enter_alike {test : Cursor → Read Bool}
    (same : ∀ {c d : Cursor}, c.Alike d → test c = test d) :
    (enter context test).Alike (enter (context.withRoot root) test) := by
  intro c d alike memory
  simp only [enter, same alike, openComponent_alike context root alike]

theorem leave_alike : leave.Alike leave := by
  intro c d alike memory
  cases memory with
  | nil => rfl
  | cons innermost outer => simp only [leave, alike.address]

theorem rule_steady : rule.Steady := by
  apply Rule.steady_of_form rfl (fun _ _ => rfl)
  intro context root
  have entered := enter_alike context root isComponent_alike
  have declared := enter_alike context root fun alike => isComponentDeclarator_alike alike.node
  exact .ok (.cons ⟨rfl, entered⟩ (.cons ⟨rfl, leave_alike⟩ (.cons ⟨rfl, entered⟩
    (.cons ⟨rfl, leave_alike⟩ (.cons ⟨rfl, declared⟩ (.cons ⟨rfl, leave_alike⟩ .nil))))))

end NestedComponent

namespace DocComment

variable (wants : Option String → Bool)

theorem require_alike {statement other : Cursor} (above : statement.Alike other)
    (alike : n.Alike m) (name : Option String) : require context wants statement n name =
      require (context.withRoot root) wants other m name := by
  have documented : hasDoc context.source statement = hasDoc (context.withRoot root).source other :=
    hasDoc_alike context.source above
  unfold require
  rw [documented, context.reportAt_alike root alike]

theorem checkFunction_alike (alike : c.Alike d) :
    checkFunction context wants c = checkFunction (context.withRoot root) wants d := by
  unfold checkFunction
  simp only [isRootLevel_alike alike, identifierName_alike (alike.node.field "id" rfl),
    require_alike context root wants alike alike.node]

theorem checkDeclarator_alike {statement other : Cursor} (above : statement.Alike other)
    (alike : t.Alike u) : checkDeclarator context wants statement t =
      checkDeclarator (context.withRoot root) wants other u := by
  apply alike.asNode.lift_bind_eq
  intro n m declarator
  simp only [isFunctionValue_alike (declarator.field "init" rfl),
    identifierName_alike (declarator.field "id" rfl),
    require_alike context root wants above declarator]

theorem checkDeclarators_alike {statement other : Cursor} (above : statement.Alike other)
    (alike : List.Forall₂ Tree.Alike items others) :
    checkDeclarators context wants statement items =
      checkDeclarators (context.withRoot root) wants other others := by
  induction alike with
  | nil => rfl
  | cons here _ ih =>
    rw [checkDeclarators, checkDeclarators, checkDeclarator_alike context root wants above here, ih]

theorem checkDeclaration_alike (alike : c.Alike d) :
    checkDeclaration context wants c = checkDeclaration (context.withRoot root) wants d := by
  unfold checkDeclaration
  rw [isRootLevel_alike alike]
  split
  · rfl
  · apply (alike.node.field "declarations" rfl).items.lift_bind_eq
    intro items others
    exact checkDeclarators_alike context root wants alike

theorem ruleFor_steady (name : String) (info : RuleInfo) : (ruleFor name info wants).Steady :=
  Rule.steady_of_form rfl (fun _ _ => rfl) fun context root =>
    .ok (.cons ⟨rfl, alike_stateless (checkFunction_alike context root wants)⟩
      (.cons ⟨rfl, alike_stateless (checkDeclaration_alike context root wants)⟩ .nil))

end DocComment

namespace ClassName

theorem isAllowed_alike (allowed : List String) (alike : n.Alike m) :
    isAllowed allowed n = isAllowed allowed m := by
  unfold isAllowed
  rw [(alike.field "expressions" rfl).isTruthy, templateText_alike alike]

theorem checkTemplate_alike (allowed : List String) (alike : c.Alike d) :
    checkTemplate context allowed c = checkTemplate (context.withRoot root) allowed d := by
  unfold checkTemplate
  rw [attributeName_alike alike.node]
  apply bind_congr
  intro name
  split
  · rfl
  · apply (alike.node.field "value" rfl).lift_at_eq
    · rfl
    · intro n m value
      simp only [value.type, context.reportAt_alike root value]
      split
      · rfl
      · apply (value.field "expression" rfl).lift_at_eq
        · rfl
        · intro n m expression
          simp only [expression.type, isAllowed_alike allowed expression]

theorem utilityRule_steady : utilityRule.Steady := by
  apply Rule.steady_of_form rfl (fun _ _ => rfl)
  intro context root
  apply Both.after (context.optionItems "allow" [""])
  intro items
  apply Both.after (allowedTexts items)
  intro allowed
  exact .ok (.cons ⟨rfl, alike_stateless (checkTemplate_alike context root allowed)⟩ .nil)

theorem onlyPart_alike (alike : t.Alike u) :
    Both (Option.Rel Node.Alike) (onlyPart t) (onlyPart u) := by
  unfold onlyPart
  rw [alike.isTruthy]
  split
  · exact .ok .none
  · cases alike with
    | value v =>
      apply Both.after
      intro items
      split
      · exact .error _
      · exact .ok .none
    | list length inside =>
      cases Tree.alike_list_iff.mp (.list length inside) with
      | nil => exact .ok .none
      | cons part more =>
        cases more with
        | nil => exact part.asNode.bind fun _ _ node => .ok (.some node)
        | cons => exact .ok .none
    | node => exact .error .wrongKind

theorem blankLiteral_alike (alike : n.Alike m) :
    Option.Rel Node.Alike (blankLiteral n) (blankLiteral m) := by
  unfold blankLiteral
  rw [isBlankLiteral_alike alike]
  split
  · exact .some alike
  · exact .none

theorem blankTemplate_alike (alike : n.Alike m) :
    Both (Option.Rel Node.Alike) (blankTemplate n) (blankTemplate m) := by
  apply (onlyPart_alike (alike.field "quasis" rfl)).bind
  intro found other related
  cases related with
  | none => exact .ok .none
  | some part =>
    dsimp only
    rw [quasiText_alike "raw" part.toTree]
    apply Both.after
    intro raw
    split
    · exact .ok (.some alike)
    · exact .ok .none

theorem blankValue_alike (alike : n.Alike m) :
    Both (Option.Rel Node.Alike) (blankValue n) (blankValue m) := by
  unfold blankValue
  rw [attributeName_alike alike]
  apply Both.after
  intro name
  split
  · exact .ok .none
  · apply (alike.field "value" rfl).at_both
    · exact .ok .none
    · intro n m value
      simp only [value.type]
      split
      · exact .ok (blankLiteral_alike value)
      · split
        · exact .ok .none
        · apply (value.field "expression" rfl).at_both
          · exact .ok .none
          · intro n m expression
            simp only [expression.type]
            split
            · exact .ok (blankLiteral_alike expression)
            · split
              · exact blankTemplate_alike expression
              · exact .ok .none

theorem checkBlank_alike (messageId : String) (alike : c.Alike d) :
    checkBlank context messageId c = checkBlank (context.withRoot root) messageId d := by
  apply (blankValue_alike alike.node).lift_bind_eq
  intro found other related
  cases related with
  | none => rfl
  | some blank => exact context.reportAt_alike root blank messageId []

theorem blankRule_steady (name : String) (info : RuleInfo) (messageId : String) :
    (blankRule name info messageId).Steady :=
  Rule.steady_of_form rfl (fun _ _ => rfl) fun context root =>
    .ok (.cons ⟨rfl, alike_stateless (checkBlank_alike context root messageId)⟩ .nil)

end ClassName

namespace CurlyText

theorem literalSource_alike (half? : Char → Option Nat) (alike : t.Alike u) (text : String) :
    literalSource half? t text = literalSource half? u text := by
  apply alike.asNode.bind_eq
  intro n m literal
  rw [(literal.field "raw" rfl).string?]

theorem checkAttribute_alike (alike : c.Alike d) :
    checkAttribute context c = checkAttribute (context.withRoot root) d := by
  apply (alike.node.field "value" rfl).lift_at_eq
  · rfl
  · intro n m value
    have literal := value.field "expression" rfl
    simp only [value.type, literalText_alike literal, literalSource_alike _ literal,
      attributeName_alike alike.node, Fix.replacing_alike value, context.report_alike root value]
    rfl

theorem rule_steady : rule.Steady :=
  Rule.steady_of_form rfl (fun _ _ => rfl) fun context root =>
    .ok (.cons ⟨rfl, alike_stateless (checkAttribute_alike context root)⟩ .nil)

end CurlyText

namespace Fragment

theorem checkFragment_alike (alike : c.Alike d) :
    checkFragment context c = checkFragment (context.withRoot root) d := by
  unfold checkFragment
  rw [context.withRoot_host, wrapsSingleChild_alike context.host alike.node,
    context.reportAt_alike root alike.node]

theorem checkElement_alike (alike : c.Alike d) :
    checkElement context c = checkElement (context.withRoot root) d := by
  unfold checkElement
  rw [isFragmentElement_alike alike.node, checkFragment_alike context root alike]

theorem rule_steady : rule.Steady :=
  Rule.steady_of_form rfl (fun _ _ => rfl) fun context root =>
    .ok (.cons ⟨rfl, alike_stateless (checkFragment_alike context root)⟩
      (.cons ⟨rfl, alike_stateless (checkElement_alike context root)⟩ .nil))

end Fragment

end Rules

namespace Registry
open Rules

theorem standard_steady : ∀ rule ∈ standard.rules, rule.Steady := by
  rw [standard_rules]
  simp only [allRules, List.forall_mem_cons, List.not_mem_nil, false_implies, implies_true,
    and_true]
  exact ⟨Typography.rule_steady, DirectColor.rule_steady, ConstantName.rule_steady,
    Interaction.rule_steady, FileName.rule_steady, TypeName.rule_steady,
    DefaultExport.rule_steady, InlineArrow.rule_steady, MemberOrder.rule_steady,
    ImportPath.rule_steady, NestedComponent.rule_steady, DocComment.ruleFor_steady _ _ _,
    DocComment.ruleFor_steady _ _ _, DocComment.ruleFor_steady _ _ _,
    ClassName.utilityRule_steady, ClassName.blankRule_steady _ _ _,
    ClassName.blankRule_steady _ _ _, CurlyText.rule_steady, Fragment.rule_steady⟩

end Registry

end TreeLint
