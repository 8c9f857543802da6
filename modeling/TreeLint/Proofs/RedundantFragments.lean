import TreeLint.Proofs.FragmentForms
import TreeLint.Proofs.NodeReports

/-! Fragments around one child. The rule finds fragments in each of their forms and counts the
children that are rendered; it reports a fragment around one child, unless that is a short fragment.
A fragment around a fragment that is written as an element is reported too. -/

namespace TreeLint

theorem Tree.string?_eq_some_iff {t : Tree} {text : String} :
    t.string? = some text ↔ t = .value (.str text) := by
  constructor
  · intro read
    unfold string? at read
    split at read
    · cases read
      rfl
    · cases read
  · rintro rfl
    rfl

namespace Shape

variable {n child : Node} {items : List Tree} {found : List Node} {told : Bool}

theorem isBlankLiteral_iff : isBlankLiteral n = true ↔ n.IsBlankText := by
  unfold isBlankLiteral Node.IsBlankText
  rw [Bool.and_eq_true, beq_iff_eq]
  refine and_congr_right fun _ => ?_
  simp only [← Tree.string?_eq_some_iff]
  cases (n.get "value").string? <;> simp

theorem identifierName_eq_some_iff {t : Tree} {text : String} :
    identifierName t = .ok (some text) ↔ ∃ n : Node, t = n.toTree ∧ n.nameText = some text := by
  constructor
  · intro read
    obtain ⟨held, found, given⟩ := bind_ok_iff.mp read
    cases held with
    | none => cases given
    | some n => exact ⟨n, Tree.asNode?_eq_some_iff.mp found, Except.ok.inj given⟩
  · rintro ⟨n, rfl, named⟩
    exact bind_ok_iff.mpr ⟨some n, Tree.asNode?_eq_some_iff.mpr rfl, congrArg Except.ok named⟩

theorem isFragmentElement_of_tag {name : Node} (tag : n.HasTag name)
    (read : isFragmentElement n = .ok told) : told = true ↔ n.IsFragment := by
  obtain ⟨opening, found, found'⟩ := tag.opening
  rw [isFragmentElement, Tree.asNode?_eq_some_iff.mpr found] at read
  change ((opening.get "name").asNode? >>= _) = _ at read
  rw [Tree.asNode?_eq_some_iff.mpr found'] at read
  change (if _ then _ else _ : Read Bool) = _ at read
  rw [tag.isFragment_iff]
  simp only [← identifierName_eq_some_iff]
  by_cases identifier : name.type = "JSXIdentifier"
  · rw [if_pos (by simpa using identifier)] at read
    cases read
    simp [identifier]
  rw [if_neg (by simpa using identifier)] at read
  by_cases member : name.type = "JSXMemberExpression"
  · rw [if_pos (by simpa using member)] at read
    obtain ⟨object, first, read⟩ := bind_ok_iff.mp read
    by_cases library : object = some "React"
    · rw [if_pos library] at read
      obtain ⟨property, second, given⟩ := bind_ok_iff.mp read
      cases given
      simp [member, first, second, library]
    · rw [if_neg library] at read
      cases read
      simp [member, first, library]
  · rw [if_neg (by simpa using member)] at read
    cases read
    simp [identifier, member]

theorem isFragmentElement_ok (element : n.type = "JSXElement")
    (read : isFragmentElement n = .ok told) : told = true ↔ n.IsFragment := by
  by_cases tagged : ∃ name, n.HasTag name
  · obtain ⟨name, tag⟩ := tagged
    exact isFragmentElement_of_tag tag read
  · have other : ¬ n.IsFragment := fun fragment => tagged (fragment.hasTag element)
    refine iff_of_false (fun isTrue => ?_) other
    subst isTrue
    obtain ⟨held, found, opened⟩ := bind_ok_iff.mp read
    cases held with
    | none => cases opened
    | some opening =>
      obtain ⟨held, found', named⟩ := bind_ok_iff.mp opened
      cases held with
      | none => cases named
      | some name => exact tagged ⟨name, element, opening, Tree.asNode?_eq_some_iff.mp found,
          Tree.asNode?_eq_some_iff.mp found'⟩

variable [Host]

theorem rendersNothing_text_iff {text : String} (type : child.type = "JSXText")
    (truthy : (child.get "value").isTruthy = true) (value : (child.get "value").ShownAs text) :
    child.RendersNothing ↔ Text.isBlankString text = true := by
  constructor
  · rintro (⟨-, absent⟩ | ⟨-, text', value', blank⟩ | ⟨container, -⟩ | ⟨container, -⟩)
    · rw [truthy] at absent
      cases absent
    · rwa [value.unique value']
    · simp [type] at container
    · simp [type] at container
  · exact .blank type text value

theorem isMeaningful_ok (read : isMeaningful ‹Host› child = .ok told) :
    told = true ↔ ¬ child.RendersNothing := by
  unfold isMeaningful at read
  by_cases isText : child.type = "JSXText"
  · rw [if_pos (by simpa using isText)] at read
    dsimp only at read
    cases truthy : (child.get "value").isTruthy with
    | false =>
      rw [truthy] at read
      cases read
      simpa using Node.RendersNothing.absent isText truthy
    | true =>
      rw [truthy] at read
      obtain ⟨text, value, given⟩ := bind_ok_iff.mp read
      cases given
      rw [rendersNothing_text_iff isText truthy ⟨_, value⟩, Bool.not_eq_true', Bool.not_eq_true]
  rw [if_neg (by simpa using isText)] at read
  by_cases isContainer : child.type = "JSXExpressionContainer"
  · rw [if_pos (by simpa using isContainer)] at read
    obtain ⟨held, found, given⟩ := bind_ok_iff.mp read
    cases held with
    | none =>
      cases given
      simpa using Node.RendersNothing.empty isContainer (Tree.asNode?_eq_none_iff.mp found)
    | some inside =>
      cases given
      have holds := Tree.asNode?_eq_some_iff.mp found
      rw [Bool.not_eq_true', ← Bool.not_eq_true, Bool.or_eq_true, beq_iff_eq, isBlankLiteral_iff]
      refine not_congr ⟨.holds isContainer inside holds, ?_⟩
      rintro (⟨type, -⟩ | ⟨type, -⟩ | ⟨-, empty⟩ | ⟨-, inside', holds', nothing⟩)
      · exact absurd type isText
      · exact absurd type isText
      · cases holds.symm.trans empty
      · rwa [Node.toTree_injective (holds.symm.trans holds')]
  · rw [if_neg (by simpa using isContainer)] at read
    cases read
    exact iff_of_true rfl fun nothing => nothing.type.elim isText isContainer

theorem meaningful_ok (read : meaningful ‹Host› items = .ok found) :
    Node.Rendered items found := by
  induction items generalizing found with
  | nil =>
    cases read
    exact .none
  | cons t items ih =>
    obtain ⟨child, given, read⟩ := bind_ok_iff.mp read
    obtain ⟨told, judged, read⟩ := bind_ok_iff.mp read
    have same := Tree.asNode_eq_ok_iff.mp given
    have judge := isMeaningful_ok judged
    cases told with
    | false => exact .skipped child same (by simpa using judge) (ih read)
    | true =>
      rw [if_pos rfl] at read
      obtain ⟨others, later, kept⟩ := bind_ok_iff.mp read
      cases kept
      exact .kept child same (judge.mp rfl) (ih later)

/-- The children that are read are those in a list, or there is none. -/
theorem meaningfulChildren_ok (read : meaningfulChildren ‹Host› n = .ok found) :
    n.OnlyChild child ↔ found = [child] := by
  obtain ⟨items, listed, read⟩ := bind_ok_iff.mp read
  have rendered := meaningful_ok read
  constructor
  · rintro ⟨items', held, alone⟩
    rw [held] at listed
    cases listed
    exact rendered.unique alone
  · rintro rfl
    cases held : n.get "children" with
    | node type fields =>
      rw [held] at listed
      cases listed
    | list items' =>
      rw [held] at listed
      cases listed
      exact ⟨items, held, rendered⟩
    | value v =>
      rw [held] at listed
      obtain ⟨values, -, given⟩ := bind_ok_iff.mp listed
      cases given
      cases values with
      | nil => cases rendered
      | cons v values => rcases rendered with _ | ⟨_, ⟨⟩, _⟩ | ⟨_, ⟨⟩, _⟩

theorem wrapsSingleChild_ok (read : wrapsSingleChild ‹Host› n = .ok told) :
    told = true ↔ ∃ child, n.OnlyChild child ∧ ¬ child.WrittenAs .short := by
  obtain ⟨found, listed, given⟩ := bind_ok_iff.mp read
  simp only [meaningfulChildren_ok listed, Node.writtenAs_short_iff]
  split at given
  · rename_i child
    cases given
    simp
  · rename_i other
    cases given
    constructor
    · exact fun never => absurd never Bool.false_ne_true
    · rintro ⟨child, rfl, -⟩
      exact absurd rfl (other child)

end Shape

namespace Rules.Fragment
open Reporting

variable {context : RuleContext} {c : Cursor} {reports : List Violation}

def looks (context : RuleContext) : Looks :=
  [("JSXFragment", checkFragment context), ("JSXElement", checkElement context)]

theorem looks_distinct (context : RuleContext) : ((looks context).map (·.1)).Nodup := by
  simp [looks]

theorem listeners_of_heeded (heeded : context.isIgnored = .ok false) :
    rule.listeners context = .ok (looks context).listeners :=
  Rule.listeners_of_looks looks rfl rfl heeded

def Tells (context : RuleContext) (c : Cursor) : Violation → Prop :=
  context.Marks c.node "unnecessaryFragment" []
    "Unnecessary React fragment: consider removing the fragment wrapper."

variable [Host]

theorem checkFragment_ok (hosted : context.host = ‹Host›) (known : context.info = info)
    (fragment : c.node.IsFragment)
    (ran : checkFragment context c = ⟨reports, .ok ()⟩) :
    (c.node.IsRedundant ∧ ∃ v, reports = [v] ∧ Tells context c v) ∨
      (¬ c.node.IsRedundant ∧ reports = []) := by
  obtain ⟨wraps, read, ran⟩ := lift_bind_eq_iff.mp ran
  rw [hosted] at read
  have judge := Shape.wrapsSingleChild_ok read
  cases wraps with
  | true =>
    have held : context.info.messages.lookup "unnecessaryFragment" =
        some "Unnecessary React fragment: consider removing the fragment wrapper." := by
      rw [known]
      rfl
    obtain ⟨v, rfl, marks⟩ := RuleContext.marks_of_reportAt held ran
    exact .inl ⟨⟨fragment, judge.mp rfl⟩, v, rfl, marks⟩
  | false =>
    cases ran
    exact .inr ⟨fun redundant => Bool.false_ne_true (judge.mpr redundant.2), rfl⟩

/-- On entering a node the rule reports it if it is a redundant fragment, and nothing else. -/
theorem report_ok (hosted : context.host = ‹Host›) (known : context.info = info)
    (ran : (looks context).report c = ⟨reports, .ok ()⟩) :
    (c.node.IsRedundant ∧ ∃ v, reports = [v] ∧ Tells context c v) ∨
      (¬ c.node.IsRedundant ∧ reports = []) := by
  by_cases isShort : c.node.type = "JSXFragment"
  · rw [Looks.report, isShort] at ran
    exact checkFragment_ok hosted known ⟨.short, .short isShort⟩ ran
  by_cases isElement : c.node.type = "JSXElement"
  · rw [Looks.report, isElement] at ran
    have checked : checkElement context c = ⟨reports, .ok ()⟩ := ran
    obtain ⟨told, read, checked⟩ := lift_bind_eq_iff.mp checked
    have judge := Shape.isFragmentElement_ok isElement read
    cases told with
    | true => exact checkFragment_ok hosted known (judge.mp rfl) checked
    | false =>
      cases checked
      exact .inr ⟨fun redundant => Bool.false_ne_true (judge.mpr redundant.1), rfl⟩
  · rw [Looks.report_of_other (by simp [looks, isShort, isElement])] at ran
    cases ran
    refine .inr ⟨fun redundant => ?_, rfl⟩
    obtain ⟨form, written⟩ := redundant.1
    exact written.type.elim isShort isElement

end Rules.Fragment

namespace Lint
open Rules

section

variable [Host] {config : Configuration} {file : ParsedFile} {cwd : Option String}
  {result : LintResult} {setting : RuleSetting}

/-- A run that heeds a file reports, in the order of the walk and each of them once, the fragments
in any of the three forms of whose children one alone is rendered, unless that one is a short
fragment. So where fragments are rewritten from one form to another, a node is judged as before just
when no only child of it is changed from the short form to an element, or back. -/
theorem redundantFragments_outcome (distinct : file.source.root.toTree.Distinct)
    (enabled : (Fragment.rule, setting) ∈ config.enabledRules)
    (heeded : (contextFor file cwd Fragment.rule setting).isIgnored = .ok false)
    (ran : run config file cwd = .ok result) :
    let root := Cursor.ofRoot file.source.root
    ∃ emitted reported, Emits file cwd config.enabledRules emitted ∧
      StableSort Violation.place emitted result.violations ∧
      reported.Sublist root.preorder ∧ reported.Nodup ∧
      (∀ c, c ∈ reported ↔ root.Below c ∧ c.node.IsRedundant) ∧
      List.Forall₂ (Fragment.Tells (contextFor file cwd Fragment.rule setting)) reported
        (emitted.filter (·.ruleId == Fragment.rule.name)) ∧
      ∀ c m, root.Below c → c.node.Respelled m →
        ((c ∈ reported ↔ m.IsRedundant) ↔ (c.node.IsFragment → c.node.KeepsShort m)) := by
  classical
  intro root
  obtain ⟨emitted, emits, sorted, -⟩ := (run_ok_iff ..).mp ran
  let reported := root.preorder.filter fun c => c.node.IsRedundant
  have member (c : Cursor) : c ∈ reported ↔ root.Below c ∧ c.node.IsRedundant := by
    rw [List.mem_filter, Cursor.mem_preorder_iff, decide_eq_true_iff]
  have single : reported = root.preorder.flatMap fun c => [c].filter fun c => c.node.IsRedundant := by
    rw [← List.filter_flatMap, List.flatMap_singleton']
  refine ⟨emitted, reported, emits, sorted, List.filter_sublist,
    (Cursor.preorder_nodup distinct).filter _, member, ?_, fun c m below respelled => ?_⟩
  · have hosted : (contextFor file cwd Fragment.rule setting).host = ‹Host› := rfl
    rw [single]
    refine tells_of_looks (Fragment.looks_distinct _) enabled (Fragment.listeners_of_heeded heeded)
      emits fun c reports ran => ?_
    rcases Fragment.report_ok hosted rfl ran with ⟨redundant, v, rfl, tells⟩ | ⟨other, rfl⟩
    · simpa [redundant] using tells
    · simp [other]
  · rw [← respelled.isRedundant_iff, member c, and_iff_right below]

end

def shortFragment (children : List Tree) : Node := ⟨"JSXFragment", [("children", .list children)]⟩

def fragmentName : Node := ⟨"JSXIdentifier", [("name", .value (.str "Fragment"))]⟩

def elementFragment (children : List Tree) : Node :=
  ⟨"JSXElement", [("openingElement", .node "JSXOpeningElement" [("name", fragmentName.toTree)]),
    ("children", .list children)]⟩

theorem elementFragment_written (children : List Tree) :
    (elementFragment children).WrittenAs .element := by
  have tag : (elementFragment children).HasTag fragmentName :=
    ⟨rfl, ⟨"JSXOpeningElement", [("name", fragmentName.toTree)]⟩, rfl, rfl⟩
  exact .element tag rfl rfl

theorem shortFragment_respelled (children : List Tree) :
    (shortFragment children).Respelled (elementFragment children) :=
  .fragment (.short rfl) (elementFragment_written children) (Tree.Respelled.refl _)

def expressionFile (expression : Node) : ParsedFile :=
  ⟨some "a.tsx", ⟨[], ⟨"Program", [("body", .list [
    .node "ExpressionStatement" [("expression", expression.toTree)]])]⟩, []⟩, none⟩

theorem expressionFile_distinct {expression : Node} (distinct : expression.toTree.Distinct) :
    (expressionFile expression).source.root.toTree.Distinct := by
  have statement : (Tree.node "ExpressionStatement" [("expression", expression.toTree)]).Distinct :=
    .node (by simp) (List.forall_mem_singleton.mpr distinct)
  exact .node (by simp [expressionFile])
    (List.forall_mem_singleton.mpr (.list (List.forall_mem_singleton.mpr statement)))

def plainElement : Node := ⟨"JSXElement", []⟩

theorem plainElement_only [Host] {n : Node} (held : n.get "children" = .list [plainElement.toTree]) :
    n.OnlyChild plainElement := by
  refine ⟨_, held, .kept plainElement rfl (fun nothing => ?_) .none⟩
  exact absurd nothing.type (by decide)

attribute [local instance] Host.usual in
/-- A fragment around an element is reported, and is judged alike if it is written as an element. -/
theorem redundantFragments_outcome_short :
    let fragment := shortFragment [plainElement.toTree]
    let file := expressionFile fragment
    let config : Configuration := ⟨[], [("no-unnecessary-fragment", ⟨.warn, []⟩)]⟩
    let setting : RuleSetting := ⟨.warn, []⟩
    file.source.root.toTree.Distinct ∧ (Fragment.rule, setting) ∈ config.enabledRules ∧
      (contextFor file none Fragment.rule setting).isIgnored = .ok false ∧
      (elementFragment [plainElement.toTree]).IsRedundant ∧
      ∃ result, run config file none = .ok result ∧
        ∃ v ∈ result.violations, v.messageId = "unnecessaryFragment" := by
  intro fragment file config setting
  have inside : plainElement.toTree.Distinct := .node .nil (List.forall_mem_nil _)
  have distinct : file.source.root.toTree.Distinct := by
    refine expressionFile_distinct (.node (by simp [fragment, shortFragment]) ?_)
    exact List.forall_mem_singleton.mpr (.list (List.forall_mem_singleton.mpr inside))
  have enabled : (Fragment.rule, setting) ∈ config.enabledRules := List.mem_singleton_self _
  have heeded : (contextFor file none Fragment.rule setting).isIgnored =
      .ok false := by rfl
  have gives : (run config file none).toOption.isSome = true := by decide +kernel
  obtain ⟨result, ran⟩ := exists_ok_of_isSome gives
  obtain ⟨emitted, reported, -, sorted, -, -, member, tells, respelled⟩ :=
    redundantFragments_outcome distinct enabled heeded ran
  let root := Cursor.ofRoot file.source.root
  let statement := root.descend "body" [0]
    ⟨"ExpressionStatement", [("expression", fragment.toTree)]⟩
  let here := statement.descend "expression" [] fragment
  have first : statement ∈ root.children := List.mem_singleton_self _
  have second : here ∈ statement.children := List.mem_singleton_self _
  have below : root.Below here := .tail (.single first) second
  have long : ¬ plainElement.WrittenAs .short := by
    rw [Node.writtenAs_short_iff]
    decide
  have redundant : fragment.IsRedundant :=
    (Node.isRedundant_iff ⟨.short, .short rfl⟩ (plainElement_only rfl)).mpr long
  have among : here ∈ reported := (member here).mpr ⟨below, redundant⟩
  refine ⟨distinct, enabled, heeded, ?_, result, ran, ?_⟩
  · refine ((respelled here _ below (shortFragment_respelled _)).mpr ?_).mp among
    intro _ child child' only only'
    rw [only.unique (plainElement_only rfl), only'.unique (plainElement_only rfl)]
  · obtain ⟨v, given, told⟩ := exists_of_forall₂ tells.flip among
    exact ⟨v, sorted.perm.symm.subset (List.mem_of_mem_filter given), told.messageId⟩

attribute [local instance] Host.usual in
/-- A fragment around a fragment that is written as an element is reported, and is not if that one
is rewritten to a short fragment. -/
theorem nestedFragment_reported :
    let inner := elementFragment []
    let outer := shortFragment [inner.toTree]
    let respelled := shortFragment [(shortFragment []).toTree]
    let config : Configuration := ⟨[], [("no-unnecessary-fragment", ⟨.warn, []⟩)]⟩
    inner.IsFragment ∧ outer.OnlyChild inner ∧ outer.Respelled respelled ∧
      ∃ result result', run config (expressionFile outer) none = .ok result ∧
        run config (expressionFile respelled) none = .ok result' ∧
        result.violations.map Violation.messageId = ["unnecessaryFragment"] ∧
        result'.violations = [] := by
  intro inner outer respelled config
  have reports : (run config (expressionFile outer) none).toOption.any
      (fun result => decide (result.violations.map Violation.messageId =
        ["unnecessaryFragment"])) = true := by decide +kernel
  have silent : (run config (expressionFile respelled) none).toOption.any
      (fun result => decide (result.violations = [])) = true := by decide +kernel
  obtain ⟨result, ran, told⟩ := exists_ok_of_any reports
  obtain ⟨result', ran', none⟩ := exists_ok_of_any silent
  refine ⟨⟨_, elementFragment_written []⟩, ?_, ?_, result, result', ran, ran',
    of_decide_eq_true told, of_decide_eq_true none⟩
  · refine ⟨_, rfl, .kept inner rfl (fun nothing => ?_) .none⟩
    exact absurd nothing.type (by decide)
  · have child : inner.toTree.Respelled (shortFragment []).toTree :=
      (shortFragment_respelled []).symm
    exact .fragment (.short rfl) (.short rfl) (Tree.Respelled.list_iff.mpr (.cons child .nil))

end Lint

end TreeLint
