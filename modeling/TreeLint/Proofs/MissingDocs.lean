import TreeLint.Proofs.BracedText
import TreeLint.Proofs.NestedComponents
import TreeLint.Proofs.NodeReports

/-! Functions without a doc comment. Every name is of one kind, so the three rules share out the
functions of the top level that have no doc comment: each of them is reported once, by the rule for
the kind of its name. -/

namespace TreeLint

namespace NameShape

def wants : NameShape → Option String → Bool
  | component => isComponentName
  | hook => isHookName
  | rootFunction => isRootFunctionName

theorem isComponentName_of_hook {name : Option String} (hook : isHookName name = true) :
    isComponentName name = false := by
  unfold isHookName at hook
  split at hook
  · rename_i c rest read
    rw [isComponentName, read]
    rfl
  · cases hook

/-- The three tests share out all names. -/
theorem wants_iff {shape : NameShape} {name : Option String} :
    shape.wants name = true ↔ ofName name = shape := by
  cases component : isComponentName name with
  | true =>
    have other : isHookName name ≠ true := fun hook => by
      rw [isComponentName_of_hook hook] at component
      cases component
    cases shape <;> simp [wants, ofName, isRootFunctionName, component, other]
  | false =>
    cases hook : isHookName name <;> cases shape <;>
      simp [wants, ofName, isRootFunctionName, component, hook]

end NameShape

/-- The options of a rule limit it to no files and name none to pass over. -/
structure RuleContext.Unlimited (context : RuleContext) : Prop where
  everywhere : context.option? "folders" = none
  heeded : context.option? "ignore" = none

theorem RuleContext.Unlimited.isIgnored {context : RuleContext} (unlimited : context.Unlimited) :
    context.isIgnored = .ok false := by
  have patterns : context.ignorePatterns = .ok [] := by
    rw [ignorePatterns, unlimited.heeded]
    rfl
  rw [RuleContext.isIgnored, patterns]
  cases context.filename <;> rfl

/-- The items with the keys of a list are those with each of these keys, put together. -/
theorem perm_flatMap_filter {α κ : Type} [DecidableEq κ] (key : α → κ) {keys : List κ}
    (distinct : keys.Nodup) (xs : List α) :
    (keys.flatMap fun k => xs.filter fun x => key x = k).Perm
      (xs.filter fun x => key x ∈ keys) := by
  induction keys with
  | nil => simp
  | cons k keys ih =>
    obtain ⟨fresh, distinct⟩ := List.nodup_cons.mp distinct
    have split := List.filter_append_perm (fun x => decide (key x = k))
      (xs.filter fun x => key x ∈ k :: keys)
    rw [List.filter_filter, List.filter_filter] at split
    have here (x : α) : (decide (key x = k) && decide (key x ∈ k :: keys)) = decide (key x = k) := by
      by_cases same : key x = k <;> simp [same]
    have others (x : α) :
        (!decide (key x = k) && decide (key x ∈ k :: keys)) = decide (key x ∈ keys) := by
      by_cases same : key x = k <;> simp [same, fresh]
    simp only [here, others] at split
    rw [List.flatMap_cons]
    exact ((ih distinct).append_left _).trans split

namespace Rules.DocComment
open Reporting

def ruleOf : NameShape → Rule
  | .component => componentRule
  | .hook => hookRule
  | .rootFunction => rootFunctionRule

/-- How the message about a function of a kind begins. -/
def opening : NameShape → String
  | .component => "React component \""
  | .hook => "React hook \""
  | .rootFunction => "Root-level function \""

/-- The name that a node gives to a function: that of the identifier at its `id`. -/
def givenName (n : Node) : Option String :=
  match n.get "id" with
  | .node type fields => Node.nameText ⟨type, fields⟩
  | .list _ | .value _ => none

def shapeOf (n : Node) : NameShape := .ofName (givenName n)

/-- A statement of the top level above which stands no doc comment. -/
structure IsBare (source : SourceCode) (root statement : Cursor) : Prop where
  below : root.Below statement
  topLevel : Shape.isRootLevel statement = true
  undocumented : Shape.hasDoc source statement = .ok false

/-- A function without a doc comment: one that a statement of the top level declares, or one that a
declarator in such a statement holds. -/
inductive Undocumented (source : SourceCode) (root : Cursor) : Cursor → Prop
  | declared {c : Cursor} (bare : IsBare source root c)
      (type : c.node.type = "FunctionDeclaration") : Undocumented source root c
  | assigned {c d : Cursor} (bare : IsBare source root c)
      (type : c.node.type = "VariableDeclaration") (declarator : d ∈ c.children) (value : Node)
      (init : d.node.get "init" = value.toTree)
      (function : value.type = "FunctionExpression" ∨ value.type = "ArrowFunctionExpression") :
      Undocumented source root d

/-- A violation of the rule for a kind tells of a function. -/
def Tells (context : RuleContext) (shape : NameShape) (d : Cursor) (v : Violation) : Prop :=
  let shown := NameShape.shownName (givenName d.node)
  context.Marks d.node "missingJSDoc" [("name", shown)]
    (opening shape ++ shown ++ "\" should have a JSDoc comment.") v

def holdsFunction (n : Node) : Bool :=
  match n.get "init" with
  | .node type _ => type == "FunctionExpression" || type == "ArrowFunctionExpression"
  | .list _ | .value _ => false

def functionsOf (c : Cursor) : List Cursor :=
  if c.node.type = "FunctionDeclaration" then [c]
  else if c.node.type = "VariableDeclaration" then c.children.filter (holdsFunction ·.node)
  else []

def lacksDoc (source : SourceCode) (c : Cursor) : Bool :=
  (Shape.hasDoc source c).toOption == some false

/-- The functions without a doc comment that a statement declares or assigns. -/
def undocumented (source : SourceCode) (c : Cursor) : List Cursor :=
  if Shape.isRootLevel c && lacksDoc source c then functionsOf c else []

variable {context : RuleContext} {shape : NameShape} {source : SourceCode}
  {root statement c d : Cursor} {n : Node} {reports : List Violation} {name : Option String}

theorem givenName_of_read (read : Shape.identifierName (n.get "id") = .ok name) :
    givenName n = name := by
  unfold givenName
  obtain ⟨held, found, given⟩ := bind_ok_iff.mp read
  cases given
  cases held with
  | none =>
    rw [Tree.asNode?_eq_none_iff.mp found]
    rfl
  | some m =>
    rw [Tree.asNode?_eq_some_iff.mp found]
    rfl

theorem holdsFunction_of_read {told : Bool}
    (read : Shape.isFunctionValue (n.get "init") = .ok told) : holdsFunction n = told := by
  unfold holdsFunction
  obtain ⟨held, found, given⟩ := bind_ok_iff.mp read
  cases held with
  | none =>
    cases given
    rw [Tree.asNode?_eq_none_iff.mp found]
    rfl
  | some m =>
    cases given
    rw [Tree.asNode?_eq_some_iff.mp found]
    rfl

theorem holdsFunction_iff : holdsFunction n = true ↔ ∃ value : Node, n.get "init" = value.toTree ∧
    (value.type = "FunctionExpression" ∨ value.type = "ArrowFunctionExpression") := by
  unfold holdsFunction
  cases held : n.get "init" with
  | node type fields =>
    simp only [Bool.or_eq_true, beq_iff_eq]
    constructor
    · exact fun function => ⟨⟨type, fields⟩, rfl, function⟩
    · rintro ⟨value, ⟨⟩, function⟩
      exact function
  | list items => simp [Node.toTree]
  | value v => simp [Node.toTree]

theorem tells_of_reportAt (known : context.info = (ruleOf shape).info)
    (reported : context.reportAt d.node "missingJSDoc"
      [("name", NameShape.shownName (givenName d.node))] = ⟨reports, .ok ()⟩) :
    ∃ v, reports = [v] ∧ Tells context shape d v := by
  have held : context.info.messages.lookup "missingJSDoc" =
      some (opening shape ++ Message.slot "name" ++ "\" should have a JSDoc comment.") := by
    rw [known]
    cases shape <;> rfl
  obtain ⟨v, rfl, marks⟩ := RuleContext.marks_of_reportAt held reported
  refine ⟨v, rfl, ?_⟩
  have bare : '\x7b' ∉ (opening shape).toList := by cases shape <;> decide
  have plain : Message.Plain "name" := Message.plain_ofList (by decide)
  have filled (last : List Char) (bare' : '\x7b' ∉ last) :=
    Message.interpolate_slot plain bare bare' (NameShape.shownName (givenName d.node))
  have read := filled "\" should have a JSDoc comment.".toList (by decide)
  rw [String.ofList_toList, String.ofList_toList] at read
  rwa [read] at marks

/-- Whether a function is reported depends on its name and on the statement. -/
theorem require_ok (known : context.info = (ruleOf shape).info)
    (ran : require context shape.wants statement d.node (givenName d.node) = ⟨reports, .ok ()⟩) :
    List.Forall₂ (Tells context shape)
      ([d].filter fun d => lacksDoc context.source statement && shapeOf d.node = shape) reports := by
  unfold require at ran
  cases wanted : shape.wants (givenName d.node) with
  | false =>
    have other : shapeOf d.node ≠ shape := fun same => by
      rw [NameShape.wants_iff.mpr same] at wanted
      cases wanted
    rw [wanted] at ran
    cases ran
    simp [other]
  | true =>
    have same : shapeOf d.node = shape := NameShape.wants_iff.mp wanted
    simp only [wanted, Bool.not_true, Bool.false_eq_true, if_false] at ran
    obtain ⟨documented, read, ran⟩ := lift_bind_eq_iff.mp ran
    cases documented with
    | true =>
      cases ran
      simp [lacksDoc, read, Except.toOption]
    | false =>
      obtain ⟨v, rfl, tells⟩ := tells_of_reportAt known ran
      simpa [lacksDoc, read, same, Except.toOption] using tells

theorem checkDeclarators_ok {ds : List Cursor} (known : context.info = (ruleOf shape).info)
    (ran : checkDeclarators context shape.wants statement (ds.map (·.node.toTree)) =
      ⟨reports, .ok ()⟩) :
    List.Forall₂ (Tells context shape) ((ds.filter (holdsFunction ·.node)).filter fun d =>
      lacksDoc context.source statement && shapeOf d.node = shape) reports := by
  induction ds generalizing reports with
  | nil =>
    cases ran
    exact .nil
  | cons d ds ih =>
    obtain ⟨first, ⟨⟩, second, checked, others, rfl⟩ := bind_eq_iff.mp ran
    have later := ih others
    obtain ⟨n, given, checked⟩ := lift_bind_eq_iff.mp checked
    obtain rfl := Node.toTree_injective (Tree.asNode_eq_ok_iff.mp given)
    obtain ⟨told, read, checked⟩ := lift_bind_eq_iff.mp checked
    have holds := holdsFunction_of_read read
    cases told with
    | false =>
      cases checked
      rwa [List.filter_cons_of_neg (by simpa using holds)]
    | true =>
      obtain ⟨name, named, checked⟩ := lift_bind_eq_iff.mp checked
      obtain rfl := givenName_of_read named
      rw [List.filter_cons, if_pos holds, ← List.singleton_append, List.filter_append]
      exact List.rel_append (require_ok known checked) later

theorem nodes_of_checkDeclarators {wants : Option String → Bool} {items : List Tree}
    (ran : checkDeclarators context wants statement items = ⟨reports, .ok ()⟩) :
    ∀ t ∈ items, ∃ n : Node, t = n.toTree := by
  induction items generalizing reports with
  | nil => exact List.forall_mem_nil _
  | cons t items ih =>
    obtain ⟨first, ⟨⟩, second, checked, others, rfl⟩ := bind_eq_iff.mp ran
    obtain ⟨n, given, -⟩ := lift_bind_eq_iff.mp checked
    exact List.forall_mem_cons.mpr ⟨⟨n, Tree.asNode_eq_ok_iff.mp given⟩, ih others⟩

theorem nodesAmong_toTree {key : String} {items : List Tree} (i : Nat)
    (nodes : ∀ t ∈ items, ∃ n : Node, t = n.toTree) :
    (Node.nodesAmong key i items).map (·.2.toTree) = items := by
  induction items generalizing i with
  | nil => rfl
  | cons t items ih =>
    obtain ⟨⟨n, rfl⟩, others⟩ := List.forall_mem_cons.mp nodes
    exact congrArg (n.toTree :: ·) (ih (i + 1) others)

/-- The declarators that are checked are the children of the statement. -/
theorem children_of_declarators {items : List Tree} (type : c.node.type = "VariableDeclaration")
    (listed : (c.node.get "declarations").items = .ok items)
    (nodes : ∀ t ∈ items, ∃ n : Node, t = n.toTree) :
    c.children.map (·.node.toTree) = items := by
  have keys : c.node.childKeys = ["declarations"] := by
    rw [Node.childKeys, type]
    rfl
  have placed : c.node.placedChildren = c.node.childrenAt "declarations" := by
    rw [Node.placedChildren, keys, List.flatMap_singleton]
  rw [Cursor.children, placed, List.map_map, Node.childrenAt]
  cases held : c.node.get "declarations" with
  | node type fields =>
    rw [held] at listed
    cases listed
  | list held' =>
    rw [held] at listed
    cases listed
    exact nodesAmong_toTree 0 nodes
  | value v =>
    rw [held] at listed
    obtain ⟨values, -, given⟩ := bind_ok_iff.mp listed
    cases given
    cases values with
    | nil => rfl
    | cons v values =>
      obtain ⟨n, same⟩ := nodes _ List.mem_cons_self
      cases same

def looks (shape : NameShape) (context : RuleContext) : Looks :=
  [("FunctionDeclaration", checkFunction context shape.wants),
    ("VariableDeclaration", checkDeclaration context shape.wants)]

theorem looks_distinct (shape : NameShape) (context : RuleContext) :
    ((looks shape context).map (·.1)).Nodup := by
  simp [looks]

/-- The functions of a kind among those without a doc comment that a statement declares or
assigns. -/
def undocumentedOf (shape : NameShape) (source : SourceCode) (c : Cursor) : List Cursor :=
  (undocumented source c).filter fun d => shapeOf d.node = shape

theorem undocumentedOf_of_top (top : Shape.isRootLevel c = true) : undocumentedOf shape source c =
    (functionsOf c).filter fun d => lacksDoc source c && shapeOf d.node = shape := by
  rw [undocumentedOf, undocumented, top]
  cases lacksDoc source c <;> simp

theorem undocumentedOf_of_nested (nested : Shape.isRootLevel c = false) :
    undocumentedOf shape source c = [] := by
  rw [undocumentedOf, undocumented, nested]
  rfl

theorem checkFunction_ok (known : context.info = (ruleOf shape).info)
    (type : c.node.type = "FunctionDeclaration")
    (ran : checkFunction context shape.wants c = ⟨reports, .ok ()⟩) :
    List.Forall₂ (Tells context shape) (undocumentedOf shape context.source c) reports := by
  unfold checkFunction at ran
  cases top : Shape.isRootLevel c with
  | false =>
    rw [top] at ran
    cases ran
    rw [undocumentedOf_of_nested top]
    exact .nil
  | true =>
    simp only [top, Bool.not_true, Bool.false_eq_true, if_false] at ran
    obtain ⟨name, named, checked⟩ := lift_bind_eq_iff.mp ran
    obtain rfl := givenName_of_read named
    rw [undocumentedOf_of_top top, functionsOf, if_pos type]
    exact require_ok known checked

theorem checkDeclaration_ok (known : context.info = (ruleOf shape).info)
    (type : c.node.type = "VariableDeclaration")
    (ran : checkDeclaration context shape.wants c = ⟨reports, .ok ()⟩) :
    List.Forall₂ (Tells context shape) (undocumentedOf shape context.source c) reports := by
  unfold checkDeclaration at ran
  cases top : Shape.isRootLevel c with
  | false =>
    rw [top] at ran
    cases ran
    rw [undocumentedOf_of_nested top]
    exact .nil
  | true =>
    simp only [top, Bool.not_true, Bool.false_eq_true, if_false] at ran
    obtain ⟨items, listed, checked⟩ := lift_bind_eq_iff.mp ran
    rw [← children_of_declarators type listed (nodes_of_checkDeclarators checked)] at checked
    rw [undocumentedOf_of_top top, functionsOf, if_neg (by simp [type]), if_pos type]
    exact checkDeclarators_ok known checked

/-- The functions of a kind that a statement declares or assigns without a doc comment are those
that the rule for the kind reports of it. -/
theorem report_ok (known : context.info = (ruleOf shape).info)
    (ran : (looks shape context).report c = ⟨reports, .ok ()⟩) :
    List.Forall₂ (Tells context shape) (undocumentedOf shape context.source c) reports := by
  by_cases isFunction : c.node.type = "FunctionDeclaration"
  · rw [Looks.report, isFunction] at ran
    exact checkFunction_ok known isFunction ran
  by_cases isVariable : c.node.type = "VariableDeclaration"
  · rw [Looks.report, isVariable] at ran
    exact checkDeclaration_ok known isVariable ran
  · rw [Looks.report_of_other (by simp [looks, isFunction, isVariable])] at ran
    cases ran
    simp [undocumentedOf, undocumented, functionsOf, isFunction, isVariable]

theorem lacksDoc_iff : lacksDoc source c = true ↔ Shape.hasDoc source c = .ok false := by
  rw [lacksDoc, beq_iff_eq, toOption_eq_some_iff]

/-- A function that a statement declares or assigns is the statement or a child of it. -/
theorem mem_functionsOf_iff : d ∈ functionsOf c ↔
    (c.node.type = "FunctionDeclaration" ∧ d = c) ∨
      (c.node.type = "VariableDeclaration" ∧ d ∈ c.children ∧ holdsFunction d.node = true) := by
  unfold functionsOf
  split
  · rename_i type
    simp [type]
  · split
    · rename_i type
      simp [type]
    · rename_i noFunction noVariable
      simp [noFunction, noVariable]

theorem mem_undocumented_iff : d ∈ undocumented source c ↔
    Shape.isRootLevel c = true ∧ Shape.hasDoc source c = .ok false ∧ d ∈ functionsOf c := by
  rw [← lacksDoc_iff, undocumented]
  cases Shape.isRootLevel c <;> cases lacksDoc source c <;> simp

theorem mem_allUndocumented_iff :
    d ∈ root.preorder.flatMap (undocumented source) ↔ Undocumented source root d := by
  simp only [List.mem_flatMap, Cursor.mem_preorder_iff, mem_undocumented_iff, mem_functionsOf_iff,
    holdsFunction_iff]
  constructor
  · rintro ⟨c, below, top, lacks, ⟨type, rfl⟩ | ⟨type, declarator, value, init, function⟩⟩
    · exact .declared ⟨below, top, lacks⟩ type
    · exact .assigned ⟨below, top, lacks⟩ type declarator value init function
  · rintro (⟨⟨below, top, lacks⟩, type⟩ |
      ⟨⟨below, top, lacks⟩, type, declarator, value, init, function⟩)
    · exact ⟨d, below, top, lacks, .inl ⟨type, rfl⟩⟩
    · exact ⟨_, below, top, lacks, .inr ⟨type, declarator, value, init, function⟩⟩

/-- A statement of the top level is no child of a declaration of variables. -/
theorem not_rootLevel_of_declarator (type : c.node.type = "VariableDeclaration")
    (declarator : d ∈ c.children) : Shape.isRootLevel d = false := by
  obtain ⟨key, indices, above⟩ := Cursor.above_of_mem_children declarator
  simp [Shape.isRootLevel, Cursor.parent?, above, Node.isExport, type]

theorem allUndocumented_nodup (distinct : root.node.toTree.Distinct) :
    (root.preorder.flatMap (undocumented source)).Nodup := by
  rw [List.nodup_flatMap]
  constructor
  · intro c visited
    have inside := Cursor.distinct_of_below distinct (Cursor.mem_preorder_iff.mp visited)
    have children : c.children.Nodup := (Cursor.children_addresses_nodup inside).of_map _
    unfold undocumented functionsOf
    split_ifs
    · exact List.nodup_singleton c
    · exact children.filter _
    · exact .nil
    · exact .nil
  · -- A function belongs to one statement: to itself, or to the one whose child it is.
    refine (Cursor.preorder_nodup distinct).imp fun {c c'} differ => ?_
    rw [Function.onFun_apply, List.disjoint_left]
    intro d one two
    obtain ⟨top, -, here⟩ := mem_undocumented_iff.mp one
    obtain ⟨top', -, there⟩ := mem_undocumented_iff.mp two
    rcases mem_functionsOf_iff.mp here with ⟨-, rfl⟩ | ⟨type, child, -⟩ <;>
      rcases mem_functionsOf_iff.mp there with ⟨-, rfl⟩ | ⟨type', child', -⟩
    · exact differ rfl
    · rw [not_rootLevel_of_declarator type' child'] at top
      cases top
    · rw [not_rootLevel_of_declarator type child] at top'
      cases top'
    · exact differ (Cursor.eq_of_mem_children child child')

def kinds : List NameShape := [.component, .hook, .rootFunction]

theorem kinds_nodup : kinds.Nodup := by decide

theorem mem_kinds (shape : NameShape) : shape ∈ kinds := by cases shape <;> decide

theorem ruleOf_name_injective : Function.Injective fun shape => (ruleOf shape).name := by
  intro one two same
  cases one <;> cases two <;> first | rfl | exact absurd same (by decide)

def ruleNames : List String := kinds.map fun shape => (ruleOf shape).name

theorem ruleNames_nodup : ruleNames.Nodup := kinds_nodup.map ruleOf_name_injective

theorem isInFolders_of_unlimited (unlimited : context.Unlimited) :
    isInFolders context = .ok true := by
  rw [isInFolders, unlimited.everywhere]
  rfl

theorem listeners_of_unlimited (unlimited : context.Unlimited) :
    (ruleOf shape).listeners context = .ok (looks shape context).listeners := by
  have form : (ruleOf shape).listeners = Rule.whenRelevant isInFolders fun context =>
      .ok (looks shape context).listeners := by
    cases shape <;> rfl
  exact Rule.listeners_of_looks (looks shape) form (isInFolders_of_unlimited unlimited)
    unlimited.isIgnored

end Rules.DocComment

namespace Lint
open Rules

section

variable [Host] {config : Configuration} {file : ParsedFile} {cwd : Option String}
  {result : LintResult} {emitted : List Violation}

/-- In a run, the reports of the rule for a kind tell of the functions of the kind that have no doc
comment, in the order of the walk. -/
theorem docReports_of_emits {shape : NameShape} {setting : RuleSetting}
    (enabled : (DocComment.ruleOf shape, setting) ∈ config.enabledRules)
    (unlimited : (contextFor file cwd (DocComment.ruleOf shape) setting).Unlimited)
    (emits : Emits file cwd config.enabledRules emitted) :
    List.Forall₂ (DocComment.Tells (contextFor file cwd (DocComment.ruleOf shape) setting) shape)
      ((Cursor.ofRoot file.source.root).preorder.flatMap
        (DocComment.undocumentedOf shape file.source))
      (emitted.filter (·.ruleId == (DocComment.ruleOf shape).name)) :=
  tells_of_looks (DocComment.looks_distinct shape _) enabled
    (DocComment.listeners_of_unlimited unlimited) emits fun _ _ ran => DocComment.report_ok rfl ran

/-- Where the three rules are enabled and not limited to some files, a run reports each function
without a doc comment once, by the rule for the kind of its name and by no other, and these are all
the reports of the three rules. -/
theorem missingDocs_outcome (distinct : file.source.root.toTree.Distinct)
    (setting : NameShape → RuleSetting)
    (enabled : ∀ shape, (DocComment.ruleOf shape, setting shape) ∈ config.enabledRules)
    (unlimited : ∀ shape,
      (contextFor file cwd (DocComment.ruleOf shape) (setting shape)).Unlimited)
    (ran : run config file cwd = .ok result) :
    ∃ functions reports, functions.Nodup ∧
      (∀ d, d ∈ functions ↔
        DocComment.Undocumented file.source (.ofRoot file.source.root) d) ∧
      reports.Perm (result.violations.filter fun v => v.ruleId ∈ DocComment.ruleNames) ∧
      List.Forall₂ (fun d v =>
        let shape := DocComment.shapeOf d.node
        (∀ other, v.ruleId = (DocComment.ruleOf other).name ↔ other = shape) ∧
          DocComment.Tells (contextFor file cwd (DocComment.ruleOf shape) (setting shape))
            shape d v)
        functions reports := by
  obtain ⟨emitted, emits, sorted, -⟩ := (run_ok_iff ..).mp ran
  let all := (Cursor.ofRoot file.source.root).preorder.flatMap
    (DocComment.undocumented file.source)
  have functions := perm_flatMap_filter (fun d : Cursor => DocComment.shapeOf d.node)
    DocComment.kinds_nodup all
  simp only [DocComment.mem_kinds, decide_true, List.filter_true] at functions
  have reports := perm_flatMap_filter Violation.ruleId DocComment.ruleNames_nodup emitted
  refine ⟨_, _, functions.nodup_iff.mpr (DocComment.allUndocumented_nodup distinct), fun d => ?_,
    reports.trans (sorted.perm.symm.filter _), ?_⟩
  · rw [functions.mem_iff]
    exact DocComment.mem_allUndocumented_iff
  · rw [DocComment.ruleNames, List.flatMap_map]
    refine forall₂_flatMap (R := Eq) (List.forall₂_same.mpr fun _ _ => rfl) ?_
    rintro shape - _ rfl
    have filtered : (all.filter fun d => DocComment.shapeOf d.node = shape) =
        (Cursor.ofRoot file.source.root).preorder.flatMap
          (DocComment.undocumentedOf shape file.source) := List.filter_flatMap
    have tells := docReports_of_emits (enabled shape) (unlimited shape) emits
    have ofKind (d : Cursor) (member : d ∈ all.filter fun d => DocComment.shapeOf d.node = shape) :
        DocComment.shapeOf d.node = shape := of_decide_eq_true (List.mem_filter.mp member).2
    simp only [← filtered, beq_eq_decide] at tells
    refine ((List.forall₂_and_left _ _).mpr ⟨ofKind, tells⟩).imp ?_
    rintro d v ⟨rfl, told⟩
    refine ⟨fun other => ?_, told⟩
    rw [told.ruleId]
    exact ⟨fun same => (DocComment.ruleOf_name_injective same).symm, fun same => by rw [same]; rfl⟩

end

def declaratorOf (name : String) : Node :=
  ⟨"VariableDeclarator", [("id", .node "Identifier" [("name", .value (.str name))]),
    ("init", .node "ArrowFunctionExpression" [])]⟩

theorem declaratorOf_distinct (name : String) : (declaratorOf name).toTree.Distinct := by
  have id : (Tree.node "Identifier" [("name", .value (.str name))]).Distinct :=
    .node (by simp) (List.forall_mem_singleton.mpr (.value _))
  have arrow : (Tree.node "ArrowFunctionExpression" []).Distinct :=
    .node .nil (List.forall_mem_nil _)
  exact .node (by simp [declaratorOf])
    (List.forall_mem_cons.mpr ⟨id, List.forall_mem_singleton.mpr arrow⟩)

def statementOf (declarator : Node) : Node :=
  ⟨"VariableDeclaration", [("declarations", .list [declarator.toTree])]⟩

/-- A file that exports a component and assigns a hook, both without a doc comment. -/
def bareFile : ParsedFile :=
  ⟨some "a.tsx", ⟨[], ⟨"Program", [("body", .list [
    .node "ExportDefaultDeclaration" [("declaration", (functionOf "App" []).toTree)],
    (statementOf (declaratorOf "useIt")).toTree])]⟩, []⟩, none⟩

theorem bareFile_distinct : bareFile.source.root.toTree.Distinct := by
  have app := functionOf_distinct "App" (List.forall_mem_nil _)
  have hook := List.forall_mem_singleton.mpr (declaratorOf_distinct "useIt")
  refine .node (by decide) (List.forall_mem_singleton.mpr (.list (List.forall_mem_cons.mpr ⟨?_,
    List.forall_mem_singleton.mpr ?_⟩)))
  · exact .node (by simp) (List.forall_mem_singleton.mpr app)
  · exact .node (by simp [statementOf]) (List.forall_mem_singleton.mpr (.list hook))

attribute [local instance] Host.usual in
/-- The component and the hook of that file are reported by their rules. -/
theorem missingDocs_outcome_bareFile :
    let setting : RuleSetting := ⟨.warn, []⟩
    let config : Configuration := ⟨[], DocComment.ruleNames.map fun name => (name, setting)⟩
    bareFile.source.root.toTree.Distinct ∧
      (∀ shape, (DocComment.ruleOf shape, setting) ∈ config.enabledRules) ∧
      (∀ shape, (contextFor bareFile none (DocComment.ruleOf shape)
        setting).Unlimited) ∧
      ∃ result, run config bareFile none = .ok result ∧
        (∃ v ∈ result.violations,
          v.message = "React component \"App\" should have a JSDoc comment.") ∧
        ∃ v ∈ result.violations,
          v.message = "React hook \"useIt\" should have a JSDoc comment." := by
  intro setting config
  have enabled (shape : NameShape) : (DocComment.ruleOf shape, setting) ∈ config.enabledRules := by
    have all : config.enabledRules = [(DocComment.componentRule, setting),
      (DocComment.hookRule, setting), (DocComment.rootFunctionRule, setting)] := by rfl
    rw [all]
    cases shape <;> simp [DocComment.ruleOf]
  have unlimited (shape : NameShape) : (contextFor bareFile none
      (DocComment.ruleOf shape) setting).Unlimited := ⟨rfl, rfl⟩
  have gives : (run config bareFile none).toOption.isSome = true := by decide +kernel
  refine ⟨bareFile_distinct, enabled, unlimited, ?_⟩
  obtain ⟨result, ran⟩ := exists_ok_of_isSome gives
  obtain ⟨functions, reports, -, member, among, tells⟩ :=
    missingDocs_outcome bareFile_distinct (fun _ => setting) enabled unlimited ran
  have told (d : Cursor)
      (undocumented : DocComment.Undocumented bareFile.source (.ofRoot bareFile.source.root) d) :
      ∃ v ∈ result.violations, v.message = DocComment.opening (DocComment.shapeOf d.node) ++
        NameShape.shownName (DocComment.givenName d.node) ++
        "\" should have a JSDoc comment." := by
    obtain ⟨v, reported, -, tells⟩ := exists_of_forall₂ tells.flip ((member d).mpr undocumented)
    exact ⟨v, List.mem_of_mem_filter (among.mem_iff.mp reported), tells.message⟩
  let root := Cursor.ofRoot bareFile.source.root
  let exported := root.descend "body" [0]
    ⟨"ExportDefaultDeclaration", [("declaration", (functionOf "App" []).toTree)]⟩
  let app := exported.descend "declaration" [] (functionOf "App" [])
  let statement := root.descend "body" [1] (statementOf (declaratorOf "useIt"))
  let hook := statement.descend "declarations" [0] (declaratorOf "useIt")
  have first : exported ∈ root.children := List.mem_cons_self
  have inside : app ∈ exported.children := List.mem_singleton_self _
  have second : statement ∈ root.children := List.mem_cons_of_mem _ (List.mem_singleton_self _)
  have held : hook ∈ statement.children := List.mem_singleton_self _
  refine ⟨result, ran, told app ?_, told hook ?_⟩
  · exact .declared ⟨.tail (.single first) inside, rfl, rfl⟩ rfl
  · exact .assigned ⟨.single second, rfl, rfl⟩ rfl held ⟨"ArrowFunctionExpression", []⟩ rfl
      (.inr rfl)

end Lint

end TreeLint
