import TreeLint.Proofs.OpenNodes
import TreeLint.Proofs.RuleRuns

/-! Components inside components. What the rule remembers at a visit are the components among the
open nodes: it opens some nodes and not others, and what it closes it tells by its address alone,
which serves because the nodes above a node have other addresses. So the rule reports the components
that have another one above them. -/

namespace TreeLint

namespace Rules.NestedComponent
open Reporting

/-- The test that a node of a type has to pass to be a component; other nodes are none. -/
def testFor? (type : String) : Option (Cursor → Read Bool) :=
  if type = "FunctionDeclaration" ∨ type = "ClassDeclaration" then some Shape.isComponent
  else if type = "VariableDeclarator" then some fun c => Shape.isComponentDeclarator c.node
  else none

def isComponent (c : Cursor) : Bool :=
  (testFor? c.node.type).any fun test => (test c).toOption == some true

def isNested (c : Cursor) : Bool := isComponent c && c.ancestors.any isComponent

/-- The component with another one above it that is entered, if it is one. -/
def nested? (v : Visit) : Option Cursor := v.entered?.filter isNested

/-- The components among nodes, by their addresses. -/
def stack (opened : List Cursor) : Memory := (opened.filter isComponent).map Cursor.address

/-- A violation tells that a node is a component inside another one. -/
structure Tells (context : RuleContext) (c : Cursor) (v : Violation) : Prop where
  ruleId : v.ruleId = context.ruleId
  messageId : v.messageId = "noNestedComponent"
  place : context.source.nodeLocation c.node = .ok (v.line, v.column)
  name : ∃ name, Shape.identifierName (c.node.get "id") = .ok name ∧
    v.data = [("name", NameShape.shownName name)] ∧
    v.message = "Do not define a new component inside another component. Move '" ++
      NameShape.shownName name ++ "' to the top level of the file."

/-- The listeners of the rule for a file that it does not pass over. -/
def componentListeners (context : RuleContext) : Listeners :=
  [(⟨"FunctionDeclaration", .enter⟩, enter context Shape.isComponent),
   (⟨"FunctionDeclaration", .leave⟩, leave),
   (⟨"ClassDeclaration", .enter⟩, enter context Shape.isComponent),
   (⟨"ClassDeclaration", .leave⟩, leave),
   (⟨"VariableDeclarator", .enter⟩, enter context fun c => Shape.isComponentDeclarator c.node),
   (⟨"VariableDeclarator", .leave⟩, leave)]

variable {context : RuleContext} {c : Cursor} {opened : List Cursor} {before after : Memory}
  {reports : List Violation}

theorem listeners_eq {made : Listeners} (works : rule.listeners context = .ok made) :
    (context.isIgnored = .ok true ∧ made = []) ∨
      (context.isIgnored = .ok false ∧ made = componentListeners context) :=
  Rule.whenRelevant_always works

def answer (context : RuleContext) (phase : Phase) (test : Cursor → Read Bool) : Listener :=
  match phase with
  | .enter => enter context test
  | .leave => leave

theorem awaiting_eq (context : RuleContext) (selector : Selector) :
    (componentListeners context).awaiting selector =
      ((testFor? selector.type).map (answer context selector.phase)).toList := by
  obtain ⟨type, phase⟩ := selector
  by_cases function : type = "FunctionDeclaration"
  · cases phase <;> simp [componentListeners, Listeners.awaiting, testFor?, answer, function]
  by_cases ofClass : type = "ClassDeclaration"
  · cases phase <;> simp [componentListeners, Listeners.awaiting, testFor?, answer, ofClass]
  by_cases declarator : type = "VariableDeclarator"
  · cases phase <;> simp [componentListeners, Listeners.awaiting, testFor?, answer, declarator]
  · simp [componentListeners, Listeners.awaiting, testFor?, Ne.symm function, Ne.symm ofClass,
      Ne.symm declarator, function, ofClass, declarator]

@[simp] theorem stack_cons (c : Cursor) (opened : List Cursor) : stack (c :: opened) =
    if isComponent c then c.address :: stack opened else stack opened := by
  cases component : isComponent c <;> simp [stack, component]

theorem stack_isEmpty (opened : List Cursor) :
    (stack opened).isEmpty = !opened.any isComponent := by
  induction opened with
  | nil => rfl
  | cons c rest ih => cases component : isComponent c <;> simp [component, ih]

theorem mem_stack_iff {address : Address} :
    address ∈ stack opened ↔ ∃ a ∈ opened, isComponent a = true ∧ a.address = address := by
  simp [stack, and_assoc]

theorem isComponent_of_testFor? {test : Cursor → Read Bool} {told : Bool}
    (tested : testFor? c.node.type = some test) (answered : test c = .ok told) :
    isComponent c = told := by
  cases told <;> simp [isComponent, tested, answered, Except.toOption]

theorem isComponent_of_no_test (untested : testFor? c.node.type = none) :
    isComponent c = false := by
  simp [isComponent, untested]

theorem tells_of_report {name : Option String} (known : context.info = info)
    (named : Shape.identifierName (c.node.get "id") = .ok name)
    (reported : context.reportAt c.node "noNestedComponent" [("name", NameShape.shownName name)] =
      ⟨reports, .ok ()⟩) : ∃ v, reports = [v] ∧ Tells context c v := by
  obtain ⟨v, made, given⟩ := lift_bind_eq_iff.mp reported
  cases given
  obtain ⟨line, column, template, placed, held, rfl⟩ := RuleContext.violation_ok_iff.mp made
  rw [known] at held
  cases held
  have plain : Message.Plain "name" := Message.plain_ofList (by decide)
  refine ⟨_, rfl, rfl, rfl, placed, name, named, rfl, ?_⟩
  exact Message.interpolate_slot plain (by decide) (by decide) _

/-- A component is opened; and reported, if another one is open. -/
theorem openComponent_ok (known : context.info = info)
    (ran : openComponent context c before = ⟨reports, .ok after⟩) :
    after = c.address :: before ∧
      List.Forall₂ (Tells context) (if before.isEmpty then [] else [c]) reports := by
  obtain ⟨name, named, ran⟩ := lift_bind_eq_iff.mp ran
  cases before with
  | nil =>
    cases ran
    exact ⟨rfl, .nil⟩
  | cons innermost outer =>
    obtain ⟨first, made, second, reported, kept, rfl⟩ := bind_eq_iff.mp ran
    obtain ⟨v, rfl, tells⟩ := tells_of_report known named reported
    cases kept
    exact ⟨rfl, .cons tells .nil⟩

/-- Entering a node opens it if it is a component, whatever else is open. -/
theorem enter_ok {test : Cursor → Read Bool} (known : context.info = info)
    (tested : testFor? c.node.type = some test)
    (ran : enter context test (some c) (stack c.ancestors) = ⟨reports, .ok after⟩) :
    after = stack (c :: c.ancestors) ∧
      List.Forall₂ (Tells context) (if isNested c then [c] else []) reports := by
  obtain ⟨told, answered, ran⟩ := lift_bind_eq_iff.mp ran
  have component := isComponent_of_testFor? tested answered
  cases told with
  | false =>
    obtain ⟨rfl, rfl⟩ := pure_eq_iff.mp ran
    simp [component, isNested]
  | true =>
    obtain ⟨rfl, tells⟩ := openComponent_ok known ran
    rw [stack_isEmpty] at tells
    refine ⟨by rw [stack_cons, if_pos component], ?_⟩
    cases above : c.ancestors.any isComponent <;> simpa [isNested, component, above] using tells

/-- Leaving a node closes it if it is a component; the nodes above it have other addresses. -/
theorem leave_ok (ran : leave (some c) (stack (c :: c.ancestors)) = ⟨reports, .ok after⟩) :
    after = stack c.ancestors ∧ reports = [] := by
  cases component : isComponent c with
  | true =>
    rw [stack_cons, if_pos component] at ran
    obtain ⟨rfl, rfl⟩ := pure_eq_iff.mp ran
    simp
  | false =>
    rw [stack_cons, component, if_neg Bool.false_ne_true] at ran
    cases held : stack c.ancestors with
    | nil =>
      rw [held] at ran
      obtain ⟨rfl, rfl⟩ := pure_eq_iff.mp ran
      exact ⟨rfl, rfl⟩
    | cons innermost outer =>
      -- The innermost component is truly above the node that is left, so it stays.
      obtain ⟨a, above, -, rfl⟩ := mem_stack_iff.mp (held ▸ List.mem_cons_self :
        innermost ∈ stack c.ancestors)
      rw [held] at ran
      obtain ⟨rfl, rfl⟩ := pure_eq_iff.mp ran
      exact ⟨if_neg (Cursor.address_ne_of_mem above), rfl⟩

/-- At a visit the rule goes from the components that are open before to those open after. -/
theorem hears_ok {visit : Visit} (known : context.info = info)
    (hears : Watcher.Hears visit.cursor ((componentListeners context).awaiting visit.selector)
      (stack visit.openBefore) reports after) :
    after = stack visit.openAfter ∧
      List.Forall₂ (Tells context) (nested? visit).toList reports := by
  obtain ⟨phase, c⟩ := visit
  rw [awaiting_eq] at hears
  simp only [Visit.selector] at hears
  cases tested : testFor? c.node.type with
  | none =>
    have other := isComponent_of_no_test tested
    rw [tested] at hears
    cases hears
    cases phase <;>
      simp [Visit.openBefore, Visit.openAfter, nested?, Visit.entered?, isNested, other]
  | some test =>
    rw [tested] at hears
    cases hears with
    | next heard silent =>
      cases silent
      rw [List.append_nil]
      cases phase with
      | enter =>
        obtain ⟨same, tells⟩ := enter_ok known tested heard
        refine ⟨same, ?_⟩
        cases inside : isNested c <;> simpa [nested?, Visit.entered?, Option.filter, inside] using tells
      | leave =>
        obtain ⟨same, rfl⟩ := leave_ok heard
        exact ⟨same, .nil⟩

/-- Along the visits of a walk the rule alone remembers the components among the open nodes, and
reports those that it enters inside others. -/
theorem follows_ok {visits : List Visit} {opened' : List Cursor} {ended : List Watcher}
    (known : context.info = info) (threads : Visit.Threads opened visits opened')
    (follows : Watcher.Follows visits [⟨componentListeners context, stack opened⟩] reports ended) :
    (∀ watcher ∈ ended, watcher.memory = stack opened') ∧
      List.Forall₂ (Tells context) (visits.filterMap nested?) reports := by
  induction threads generalizing reports with
  | none =>
    cases follows
    exact ⟨List.forall_mem_singleton.mpr rfl, .nil⟩
  | next before threads ih =>
    subst before
    cases follows with
    | next sees follows =>
      cases sees with
      | next hears others =>
        cases others
        obtain ⟨rfl, tells⟩ := hears_ok known hears
        obtain ⟨same, more⟩ := ih follows
        rw [List.append_nil, List.filterMap_eq_flatMap_toList, List.flatMap_cons,
          ← List.filterMap_eq_flatMap_toList]
        exact ⟨same, List.rel_append tells more⟩

/-- The nodes of a tree that are reported are the components with another component above them. -/
theorem mem_nested_iff {root : Node} :
    c ∈ (Cursor.ofRoot root).preorder.filter isNested ↔ (Cursor.ofRoot root).Below c ∧
      isComponent c = true ∧ ∃ a, a.Encloses c ∧ isComponent a = true := by
  rw [List.mem_filter, Cursor.mem_preorder_iff]
  refine and_congr_right fun below => ?_
  simp only [isNested, Bool.and_eq_true, List.any_eq_true, Cursor.mem_ancestors_iff below]

end Rules.NestedComponent

namespace Lint
open Rules

section

variable [Host] {config : Configuration} {file : ParsedFile} {cwd : Option String}
  {result : LintResult} {setting : RuleSetting}

theorem nestedComponent_atWork {watcher : Watcher}
    (heeded : (contextFor file cwd NestedComponent.rule setting).isIgnored = .ok false)
    (works : AtWork file cwd (NestedComponent.rule, setting) watcher) :
    watcher = ⟨NestedComponent.componentListeners
      (contextFor file cwd NestedComponent.rule setting), NestedComponent.stack []⟩ := by
  obtain ⟨listeners, memory⟩ := watcher
  obtain ⟨made, rfl⟩ := works
  rcases NestedComponent.listeners_eq made with ⟨passes, -⟩ | ⟨-, rfl⟩
  · rw [heeded] at passes
    cases passes
  · rfl

/-- A run that heeds a file finds the components inside components. At every moment of the walk the
rule remembers the components among the nodes that are entered and not yet left, and in the end
nothing; and it reports, in the order of the walk and each of them once, the components that have
another component above them. -/
theorem nestedComponents_outcome (distinct : file.source.root.toTree.Distinct)
    (enabled : (NestedComponent.rule, setting) ∈ config.enabledRules)
    (heeded : (contextFor file cwd NestedComponent.rule setting).isIgnored = .ok false)
    (ran : run config file cwd = .ok result) :
    let root := Cursor.ofRoot file.source.root
    ∃ before emitted after reported,
      List.Forall₂ (AtWork file cwd) config.enabledRules before ∧
      Watcher.Follows root.visits before emitted after ∧
      StableSort Violation.place emitted result.violations ∧
      (∀ made rest, root.visits = made ++ rest → ∃ opened first between second,
        Visit.Underway made opened ∧ Watcher.Follows made before first between ∧
        Watcher.Follows rest between second after ∧
        Remembers config (NestedComponent.rule, setting) between
          (NestedComponent.stack opened)) ∧
      Remembers config (NestedComponent.rule, setting) after [] ∧
      reported.Sublist root.preorder ∧ reported.Nodup ∧
      (∀ c, c ∈ reported ↔ root.Below c ∧ NestedComponent.isComponent c = true ∧
        ∃ a, a.Encloses c ∧ NestedComponent.isComponent a = true) ∧
      List.Forall₂ (NestedComponent.Tells (contextFor file cwd NestedComponent.rule setting))
        reported (emitted.filter (·.ruleId == NestedComponent.rule.name)) := by
  intro root
  obtain ⟨emitted, ⟨before, after, atWork, follows⟩, sorted, -⟩ := (run_ok_iff ..).mp ran
  have threads : Visit.Threads [] root.visits [] := Visit.threads_visits root
  have remembers {made : List Visit} {opened : List Cursor} {first : List Violation}
      {between : List Watcher} (threads : Visit.Threads [] made opened)
      (follows : Watcher.Follows made before first between) :
      Remembers config (NestedComponent.rule, setting) between (NestedComponent.stack opened) := by
    refine remembers_of_alone atWork follows fun watcher own ended works alone => ?_
    rw [nestedComponent_atWork heeded works] at alone
    exact (NestedComponent.follows_ok rfl threads alone).1 ended (List.mem_singleton_self _)
  refine ⟨before, emitted, after, root.preorder.filter NestedComponent.isNested, atWork, follows,
    sorted, ?_, remembers threads follows, List.filter_sublist,
    (Cursor.preorder_nodup distinct).filter _, fun c => NestedComponent.mem_nested_iff, ?_⟩
  · intro made rest split
    obtain ⟨opened, early, -⟩ := Visit.threads_append_iff.mp (split ▸ threads)
    obtain ⟨first, between, second, start, later, -⟩ :=
      Watcher.follows_append_iff.mp (split ▸ follows)
    have once : made.Nodup := (split ▸ Cursor.nodup_visits distinct :
      (made ++ rest).Nodup).of_append_left
    exact ⟨opened, first, between, second, Visit.underway_of_threads early once, start, later,
      remembers early start⟩
  · obtain ⟨watcher, ended, works, alone⟩ := follows_own enabled atWork follows
    rw [nestedComponent_atWork heeded works] at alone
    rw [Cursor.preorder, List.filter_filterMap]
    exact (NestedComponent.follows_ok rfl threads alone).2

end

def functionOf (name : String) (body : List Tree) : Node :=
  ⟨"FunctionDeclaration", [("id", .node "Identifier" [("name", .value (.str name))]),
    ("body", .node "BlockStatement" [("body", .list body)])]⟩

theorem functionOf_distinct (name : String) {body : List Tree} (each : ∀ t ∈ body, t.Distinct) :
    (functionOf name body).toTree.Distinct := by
  have id : (Tree.node "Identifier" [("name", .value (.str name))]).Distinct :=
    .node (by simp) (List.forall_mem_singleton.mpr (.value _))
  have block : (Tree.node "BlockStatement" [("body", .list body)]).Distinct :=
    .node (by simp) (List.forall_mem_singleton.mpr (.list each))
  exact .node (by simp [functionOf])
    (List.forall_mem_cons.mpr ⟨id, List.forall_mem_singleton.mpr block⟩)

def nestingFile : ParsedFile :=
  ⟨some "a.tsx", ⟨[], ⟨"Program", [("body", .list [
    (functionOf "App" [(functionOf "Inner" []).toTree]).toTree])]⟩, []⟩, none⟩

theorem nestingFile_distinct : nestingFile.source.root.toTree.Distinct := by
  have inner := functionOf_distinct "Inner" (List.forall_mem_nil _)
  have app := functionOf_distinct "App" (List.forall_mem_singleton.mpr inner)
  exact .node (by decide) (List.forall_mem_singleton.mpr (.list (List.forall_mem_singleton.mpr app)))

attribute [local instance] Host.usual in
/-- The inner component of that file is reported. -/
theorem nestedComponents_outcome_nestingFile :
    let config : Configuration := ⟨[], [("no-nested-component", ⟨.error, []⟩)]⟩
    let setting : RuleSetting := ⟨.error, []⟩
    nestingFile.source.root.toTree.Distinct ∧
      (NestedComponent.rule, setting) ∈ config.enabledRules ∧
      (contextFor nestingFile none NestedComponent.rule setting).isIgnored =
        .ok false ∧
      ∃ result, run config nestingFile none = .ok result ∧ ∃ v ∈ result.violations,
        v.message = "Do not define a new component inside another component. " ++
          "Move 'Inner' to the top level of the file." := by
  intro config setting
  have enabled : (NestedComponent.rule, setting) ∈ config.enabledRules := List.mem_singleton_self _
  have heeded : (contextFor nestingFile none NestedComponent.rule
      setting).isIgnored = .ok false := by rfl
  have gives : (run config nestingFile none).toOption.isSome = true := by decide +kernel
  refine ⟨nestingFile_distinct, enabled, heeded, ?_⟩
  obtain ⟨result, ran⟩ := exists_ok_of_isSome gives
  obtain ⟨-, emitted, -, reported, -, -, sorted, -, -, -, -, member, tells⟩ :=
    nestedComponents_outcome nestingFile_distinct enabled heeded ran
  let root := Cursor.ofRoot nestingFile.source.root
  let app := root.descend "body" [0] (functionOf "App" [(functionOf "Inner" []).toTree])
  let block := app.descend "body" []
    ⟨"BlockStatement", [("body", .list [(functionOf "Inner" []).toTree])]⟩
  let inner := block.descend "body" [0] (functionOf "Inner" [])
  have top : app ∈ root.children := List.mem_singleton_self _
  have body : block ∈ app.children := List.mem_cons_of_mem _ (List.mem_singleton_self _)
  have nested : inner ∈ block.children := List.mem_singleton_self _
  have encloses : app.Encloses inner := .tail (.single body) nested
  have among : inner ∈ reported := (member inner).mpr
    ⟨.head top encloses.to_reflTransGen, by decide +kernel, app, encloses, by decide +kernel⟩
  obtain ⟨v, given, told⟩ := exists_of_forall₂ tells.flip among
  obtain ⟨name, named, -, message⟩ := told.name
  obtain rfl : some "Inner" = name := Except.ok.inj named
  exact ⟨result, ran, v, sorted.perm.symm.subset (List.mem_of_mem_filter given), message⟩

end Lint

end TreeLint
