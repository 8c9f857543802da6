import TreeLint.Proofs.RuleRuns

/-! Literal texts in braces. The only rule that makes changes reports each attribute whose value is
a literal text in braces, once, with the change that puts the literal in the place of its
container; so the changes that a run offers are those of the literal texts in braces below the
root. -/

namespace TreeLint

structure BracedText where
  container : Node
  literal : Node
  text : String

/-- What is put in the place of the container: the literal as it was written if the parser kept
that, else the text in JSON. -/
def BracedText.source (half? : Char → Option Nat) (b : BracedText) : String :=
  (b.literal.get "raw").string?.getD (Json.quoted half? b.text)

namespace Tree

theorem asNode_eq_ok_iff {t : Tree} {n : Node} : t.asNode = .ok n ↔ t = n.toTree := by
  constructor
  · intro read
    unfold asNode at read
    split at read
    · cases read
      rfl
    · cases read
    · cases read
  · rintro rfl
    rfl

theorem asNode?_eq_none_iff {t : Tree} : t.asNode? = .ok none ↔ t = .null := by
  constructor
  · intro read
    unfold asNode? at read
    split at read
    · rfl
    · cases read
    · cases read
    · cases read
  · rintro rfl
    rfl

theorem asNode?_eq_some_iff {t : Tree} {n : Node} : t.asNode? = .ok (some n) ↔ t = n.toTree := by
  constructor
  · intro read
    unfold asNode? at read
    split at read
    · cases read
    · cases read
      rfl
    · cases read
    · cases read
  · rintro rfl
    rfl

end Tree

theorem Node.toTree_injective {one two : Node} (same : one.toTree = two.toTree) : one = two := by
  cases one
  cases two
  cases same
  rfl

theorem Shape.literalText_toTree (n : Node) : literalText n.toTree =
    .ok (if n.type == "Literal" then (n.get "value").string? else none) := rfl

theorem Shape.literalText_eq_some {t : Tree} {text : String}
    (read : literalText t = .ok (some text)) :
    ∃ n : Node, t = n.toTree ∧ n.type = "Literal" ∧ (n.get "value").string? = some text := by
  obtain ⟨found, given, given'⟩ := bind_ok_iff.mp read
  cases found with
  | none => cases given'
  | some n =>
    obtain rfl := Tree.asNode?_eq_some_iff.mp given
    rw [literalText_toTree, Except.ok.injEq] at read
    split at read
    · rename_i literal
      exact ⟨n, rfl, by simpa using literal, read⟩
    · cases read

namespace Node

/-- A node is an attribute whose value is a literal text in braces. -/
structure Braces (n : Node) (b : BracedText) : Prop where
  attr : n.type = "JSXAttribute"
  value : n.get "value" = b.container.toTree
  container : b.container.type = "JSXExpressionContainer"
  expression : b.container.get "expression" = b.literal.toTree
  literal : b.literal.type = "Literal"
  text : (b.literal.get "value").string? = some b.text

/-- The literal text in braces that is the value of a node, if the node is such an attribute. -/
def bracedText? (n : Node) : Option BracedText :=
  match n.get "value" with
  | .node type fields => match Node.get ⟨type, fields⟩ "expression" with
    | .node inner held =>
      if n.type = "JSXAttribute" ∧ type = "JSXExpressionContainer" ∧ inner = "Literal" then
        (Node.get ⟨inner, held⟩ "value").string?.map fun text =>
          ⟨⟨type, fields⟩, ⟨inner, held⟩, text⟩
      else none
    | _ => none
  | _ => none

theorem bracedText?_eq_some_iff {n : Node} {b : BracedText} :
    n.bracedText? = some b ↔ n.Braces b := by
  constructor
  · intro found
    unfold bracedText? at found
    split at found
    · rename_i type fields value
      split at found
      · rename_i inner held expression
        split at found
        · rename_i types
          obtain ⟨attr, container, literal⟩ := types
          obtain ⟨text, holds, rfl⟩ := Option.map_eq_some_iff.mp found
          exact ⟨attr, value, container, expression, literal, holds⟩
        · cases found
      · cases found
    · cases found
  · intro braces
    obtain ⟨⟨type, fields⟩, ⟨inner, held⟩, text⟩ := b
    obtain ⟨attr, value, container, expression, literal, holds⟩ := braces
    unfold bracedText?
    rw [value]
    simp only [toTree]
    rw [expression]
    simp only [toTree]
    rw [if_pos ⟨attr, container, literal⟩, holds, Option.map_some]

end Node

/-- The literal text in braces that is found when a node is entered. -/
def Visit.bracedText? (v : Visit) : Option BracedText :=
  match v.phase with
  | .enter => v.cursor.node.bracedText?
  | .leave => none

/-- The literal texts in braces below a node, in the order of the walk. -/
def Cursor.bracedTexts (c : Cursor) : List BracedText := c.visits.filterMap Visit.bracedText?

/-- A change goes from the start of the node that it replaces to its end. -/
theorem Fix.replacing_ok_iff {n : Node} {text : String} {f : Fix} :
    replacing n text = .ok (some f) ↔
      n.start = .ok (some f.start) ∧ n.stop = .ok (some f.stop) ∧ f.text = text := by
  unfold replacing
  constructor
  · intro replaces
    obtain ⟨start, begins, replaces⟩ := bind_ok_iff.mp replaces
    cases start with
    | none => cases replaces
    | some start =>
      obtain ⟨stop, ends, replaces⟩ := bind_ok_iff.mp replaces
      cases stop with
      | none => cases replaces
      | some stop =>
        cases replaces
        exact ⟨begins, ends, rfl⟩
  · rintro ⟨begins, ends, rfl⟩
    rw [begins, ends]
    rfl

namespace Rules.CurlyText
open Reporting

variable {context : RuleContext}

/-- A violation offers to put the literal in the place of its container. -/
def Offers (half? : Char → Option Nat) (b : BracedText) (v : Violation) : Prop :=
  Fix.replacing b.container (b.source half?) = .ok v.fix

theorem fix_of_report {spot : RuleContext.Spot} {messageId : String}
    {data : List (String × String)} {fix : Option Fix} {reports : List Violation} {result : Unit}
    (mends : context.info.fixable.isSome)
    (reported : context.report spot messageId data fix = ⟨reports, .ok result⟩) :
    ∃ v, reports = [v] ∧ v.fix = fix := by
  obtain ⟨v, made, given⟩ := lift_bind_eq_iff.mp reported
  cases given
  obtain ⟨line, column, template, -, -, rfl⟩ := RuleContext.violation_ok_iff.mp made
  exact ⟨_, rfl, if_pos mends⟩

/-- An attribute is reported if its value is a literal text in braces, and not otherwise. -/
theorem reports_of_checkAttribute {c : Cursor} {reports : List Violation} {result : Unit}
    (mends : context.info.fixable.isSome) (attr : c.node.type = "JSXAttribute")
    (checked : checkAttribute context c = ⟨reports, .ok result⟩) :
    List.Forall₂ (Offers context.host.half?) c.node.bracedText?.toList reports := by
  have silent (other : ∀ b, ¬ c.node.Braces b) : c.node.bracedText? = none := by
    refine Option.eq_none_iff_forall_ne_some.mpr fun b found => ?_
    exact other b (Node.bracedText?_eq_some_iff.mp found)
  obtain ⟨value?, value, checked⟩ := lift_bind_eq_iff.mp checked
  cases value? with
  | none =>
    cases checked
    rw [silent]
    · exact .nil
    · intro b braces
      rw [braces.value, Tree.asNode?_eq_none_iff] at value
      cases value
  | some container =>
    rw [Tree.asNode?_eq_some_iff] at value
    by_cases contains : container.type = "JSXExpressionContainer"
    · simp only [contains, bne_self_eq_false, Bool.false_eq_true, if_false] at checked
      obtain ⟨text?, read, checked⟩ := lift_bind_eq_iff.mp checked
      cases text? with
      | none =>
        cases checked
        rw [silent]
        · exact .nil
        · intro b braces
          obtain rfl := Node.toTree_injective (value.symm.trans braces.value)
          rw [braces.expression, Shape.literalText_toTree, braces.literal, braces.text] at read
          cases read
      | some text =>
        obtain ⟨literal, expression, isLiteral, holds⟩ := Shape.literalText_eq_some read
        have braces : c.node.Braces ⟨container, literal, text⟩ :=
          ⟨attr, value, contains, expression, isLiteral, holds⟩
        rw [expression] at checked
        obtain ⟨source, written, checked⟩ := lift_bind_eq_iff.mp checked
        cases written
        obtain ⟨name, -, checked⟩ := lift_bind_eq_iff.mp checked
        obtain ⟨fix, replaced, checked⟩ := lift_bind_eq_iff.mp checked
        obtain ⟨v, rfl, rfl⟩ := fix_of_report mends checked
        rw [Node.bracedText?_eq_some_iff.mpr braces]
        exact .cons replaced .nil
    · simp only [bne_iff_ne.mpr contains, if_true] at checked
      cases checked
      rw [silent]
      · exact .nil
      · intro b braces
        obtain rfl := Node.toTree_injective (value.symm.trans braces.value)
        exact contains braces.container

/-- The listeners of the rule for a file that it does not pass over. -/
def attributeListeners (context : RuleContext) : Listeners :=
  [(⟨"JSXAttribute", .enter⟩, .stateless (checkAttribute context))]

theorem reports_of_hears {visit : Visit} {before after : Memory} {reports : List Violation}
    (mends : context.info.fixable.isSome) (hears : Watcher.Hears visit.cursor
      ((attributeListeners context).awaiting visit.selector) before reports after) :
    List.Forall₂ (Offers context.host.half?) visit.bracedText?.toList reports := by
  by_cases waits : visit.selector = ⟨"JSXAttribute", .enter⟩
  · have called : (attributeListeners context).awaiting visit.selector =
        [.stateless (checkAttribute context)] := by
      simp [attributeListeners, Listeners.awaiting, waits]
    rw [called] at hears
    cases hears with
    | next heard silent =>
      cases silent
      obtain ⟨first, result, second, checked, kept, rfl⟩ := Reporting.bind_eq_iff.mp heard
      cases kept
      obtain ⟨phase, c⟩ := visit
      simp only [Visit.selector, Selector.mk.injEq] at waits
      obtain ⟨attr, rfl⟩ := waits
      rw [List.append_nil, List.append_nil]
      exact reports_of_checkAttribute mends attr checked
  · have called : (attributeListeners context).awaiting visit.selector = [] := by
      simp [attributeListeners, Listeners.awaiting, Ne.symm waits]
    rw [called] at hears
    cases hears
    have none : visit.bracedText? = none := by
      refine Option.eq_none_iff_forall_ne_some.mpr fun b found => ?_
      obtain ⟨phase, c⟩ := visit
      cases phase with
      | enter => exact waits (by rw [Visit.selector, (Node.bracedText?_eq_some_iff.mp found).attr])
      | leave => cases found
    rw [none]
    exact .nil

/-- Along visits the rule alone reports the literal texts in braces, each of them once. -/
theorem reports_of_follows {visits : List Visit} {memory : Memory} {reports : List Violation}
    {after : List Watcher} (mends : context.info.fixable.isSome)
    (follows : Watcher.Follows visits [⟨attributeListeners context, memory⟩] reports after) :
    List.Forall₂ (Offers context.host.half?) (visits.filterMap Visit.bracedText?) reports := by
  induction visits generalizing memory reports with
  | nil =>
    cases follows
    exact .nil
  | cons visit rest ih =>
    cases follows with
    | next sees follows =>
      cases sees with
      | next hears others =>
        cases others
        rw [List.append_nil, List.filterMap_eq_flatMap_toList, List.flatMap_cons,
          ← List.filterMap_eq_flatMap_toList]
        exact List.rel_append (reports_of_hears mends hears) (ih follows)

/-- The rule passes over a file, or listens at attributes. -/
theorem listeners_eq {made : Listeners} (works : rule.listeners context = .ok made) :
    (context.isIgnored = .ok true ∧ made = []) ∨
      (context.isIgnored = .ok false ∧ made = attributeListeners context) :=
  Rule.whenRelevant_always works

end Rules.CurlyText

namespace Registry

/-- Only one rule makes changes. -/
theorem name_of_fixable : ∀ rule ∈ standard.rules, rule.info.fixable.isSome = true →
    rule.name = Rules.CurlyText.rule.name := by
  decide +kernel

theorem curlyText_mem : Rules.CurlyText.rule ∈ standard.rules := by
  rw [standard_rules]
  simp [allRules]

end Registry

theorem RuleContext.fix_of_makes {context : RuleContext} {info : RuleInfo} {v : Violation}
    (made : context.Makes info v) (offers : v.fix.isSome = true) :
    context.info.fixable.isSome = true := by
  obtain ⟨spot, messageId, data, fix, -, made⟩ := made
  obtain ⟨line, column, template, -, -, rfl⟩ := violation_ok_iff.mp made
  by_contra mends
  simp [mends] at offers

namespace Lint
open Rules

variable [Host] {file : ParsedFile} {cwd : Option String} {config : Configuration}
  {result : LintResult}

theorem fixable_of_atWork {rules : List (Rule × RuleSetting)} {watchers : List Watcher}
    (known : ∀ entry ∈ rules, entry.1 ∈ Registry.standard.rules)
    (atWork : List.Forall₂ (AtWork file cwd) rules watchers) :
    ∀ watcher ∈ watchers,
      watcher.Reports fun v => v.fix.isSome = true → v.ruleId = CurlyText.rule.name := by
  induction atWork with
  | nil => exact List.forall_mem_nil _
  | @cons entry watcher _ _ works _ ih =>
    obtain ⟨here, others⟩ := List.forall_mem_cons.mp known
    refine List.forall_mem_cons.mpr ⟨?_, ih others⟩
    intro listened member visited memory v reported offers
    have regular := Registry.standard_regular _ here
    have made := Rule.madeBy_of_listeners regular works.1 listened member visited memory v reported
    rw [RuleContext.ruleId_of_makes made]
    exact Registry.name_of_fixable entry.1 here (RuleContext.fix_of_makes made offers)

/-- All changes that a run offers come with the reports of one rule, which are those that it makes
when it sees the walk alone. -/
theorem fixes_of_run (ran : run config file cwd = .ok result) :
    ∃ watchers reports after, List.Forall₂ (AtWork file cwd)
        (config.enabledRules.filter (·.1.name == CurlyText.rule.name)) watchers ∧
      Watcher.Follows (Cursor.ofRoot file.source.root).visits watchers reports after ∧
      (result.violations.filterMap Violation.fix).Perm (reports.filterMap Violation.fix) := by
  obtain ⟨emitted, ⟨before, after, atWork, follows⟩, sorted, -⟩ := (run_ok_iff ..).mp ran
  have known := config.known_of_enabled
  obtain ⟨watchers, works, keeps⟩ :=
    @keeps_chosen _ file cwd (fun name => name == CurlyText.rule.name) _ _ known atWork
  obtain ⟨ended, seen, -⟩ := keeps.follows follows
  refine ⟨watchers, _, ended, works, seen, (sorted.perm.filterMap _).trans (.of_eq ?_)⟩
  rw [List.filterMap_filter]
  refine List.filterMap_congr fun v member => ?_
  split
  · rfl
  · rename_i other
    refine Option.eq_none_iff_forall_ne_some.mpr fun f offers => other ?_
    have named := follows.only (fixable_of_atWork known atWork) v member (by rw [offers]; rfl)
    simpa using named

/-- A run that heeds a file offers one change for each literal text in braces. -/
theorem offers_of_run {setting : RuleSetting}
    (enabled : (CurlyText.rule, setting) ∈ config.enabledRules)
    (heeded : (contextFor file cwd CurlyText.rule setting).isIgnored = .ok false)
    (ran : run config file cwd = .ok result) :
    ∃ reports, List.Forall₂ (CurlyText.Offers Host.half?)
        (Cursor.ofRoot file.source.root).bracedTexts reports ∧
      (result.violations.filterMap Violation.fix).Perm (reports.filterMap Violation.fix) := by
  obtain ⟨watchers, reports, after, atWork, follows, same⟩ := fixes_of_run ran
  obtain ⟨⟨listeners, memory⟩, rfl, made, -⟩ := atWork_alone enabled atWork
  rcases CurlyText.listeners_eq made with ⟨passes, -⟩ | ⟨-, rfl⟩
  · rw [heeded] at passes
    cases passes
  · have offers := CurlyText.reports_of_follows rfl follows
    exact ⟨reports, offers, same⟩

/-- A change is offered only by a run that heeds the file. -/
theorem heeded_of_fix (ran : run config file cwd = .ok result) {v : Violation}
    (reported : v ∈ result.violations) {f : Fix} (offered : v.fix = some f) :
    ∃ setting, (CurlyText.rule, setting) ∈ config.enabledRules ∧
      (contextFor file cwd CurlyText.rule setting).isIgnored = .ok false := by
  obtain ⟨watchers, reports, after, atWork, follows, same⟩ := fixes_of_run ran
  have busy : ¬ ∀ watcher ∈ watchers, watcher.listeners = [] := by
    intro idle
    have among := same.subset (List.mem_filterMap.mpr ⟨v, reported, offered⟩)
    rw [follows_idle follows idle] at among
    cases among
  cases found : config.enabledRules.filter (·.1.name == CurlyText.rule.name) with
  | nil =>
    rw [found] at atWork
    cases atWork
    exact absurd (List.forall_mem_nil _) busy
  | cons entry more =>
    obtain ⟨enabled, named⟩ := List.mem_filter.mp (found ▸ List.mem_cons_self :
      entry ∈ config.enabledRules.filter (·.1.name == CurlyText.rule.name))
    obtain ⟨rule, setting⟩ := entry
    have known := config.known_of_enabled _ enabled
    obtain rfl : rule = CurlyText.rule :=
      Registry.eq_of_name known Registry.curlyText_mem (by simpa using named)
    obtain ⟨⟨listeners, memory⟩, rfl, made, -⟩ := atWork_alone enabled atWork
    rcases CurlyText.listeners_eq made with ⟨-, rfl⟩ | ⟨heeded, -⟩
    · exact absurd (by simp) busy
    · exact ⟨setting, enabled, heeded⟩

/-- A change that a run offers puts a literal in the place of its braces. -/
theorem bracedText_of_fix (ran : run config file cwd = .ok result) {v : Violation}
    (reported : v ∈ result.violations) {f : Fix} (offered : v.fix = some f) :
    ∃ c b, (Cursor.ofRoot file.source.root).Below c ∧ c.node.Braces b ∧
      Fix.replacing b.container (b.source Host.half?) = .ok (some f) := by
  obtain ⟨setting, enabled, heeded⟩ := heeded_of_fix ran reported offered
  obtain ⟨reports, offers, same⟩ := offers_of_run enabled heeded ran
  have among := same.subset (List.mem_filterMap.mpr ⟨v, reported, offered⟩)
  obtain ⟨report, made, held⟩ := List.mem_filterMap.mp among
  obtain ⟨b, braced, offer⟩ := exists_of_forall₂ offers made
  obtain ⟨⟨phase, c⟩, visited, found⟩ := List.mem_filterMap.mp braced
  cases phase with
  | leave => cases found
  | enter =>
    rw [CurlyText.Offers, held] at offer
    exact ⟨c, b, (Cursor.mem_visits_iff _ _).mp visited, Node.bracedText?_eq_some_iff.mp found,
      offer⟩

/-- The rule that makes changes, alone. -/
def curlyOnly : Configuration := ⟨[], [("no-unnecessary-curly-in-props", ⟨.warn, []⟩)]⟩

omit [Host] in
theorem curlyOnly_enabled : curlyOnly.enabledRules = [(CurlyText.rule, ⟨.warn, []⟩)] := by rfl

end Lint

end TreeLint
