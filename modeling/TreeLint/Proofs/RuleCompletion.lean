import TreeLint.Proofs.Completion
import TreeLint.Proofs.Options

/-! Rules come to their end. At a sound node a listener makes its reports and finishes, whatever it
remembers, when the file has a name, the options passed the check and the path patterns among them
are understood. -/

namespace TreeLint

namespace Reporting

variable {α β : Type}

/-- A computation that reports comes to its end. -/
def Completes (x : Reporting α) : Prop := ∃ reports a, x = ⟨reports, .ok a⟩

theorem completes_pure (a : α) : (pure a : Reporting α).Completes := ⟨[], a, rfl⟩

theorem completes_bind {x : Reporting α} {f : α → Reporting β} (first : x.Completes)
    (second : ∀ a, (f a).Completes) : (x >>= f).Completes := by
  obtain ⟨reports, a, rfl⟩ := first
  obtain ⟨more, b, ends⟩ := second a
  exact ⟨reports ++ more, b, bind_eq_iff.mpr ⟨reports, a, more, rfl, ends, rfl⟩⟩

theorem completes_lift_bind {P : α → Prop} {x : Read α} {f : α → Reporting β} (first : Gives P x)
    (second : ∀ a, P a → (f a).Completes) : ((liftM x : Reporting α) >>= f).Completes := by
  obtain ⟨a, read, holds⟩ := first
  obtain ⟨reports, b, ends⟩ := second a holds
  exact ⟨reports, b, lift_bind_eq_iff.mpr ⟨a, read, ends⟩⟩

variable [Host]

/-- What is asked of the node at a sound place comes to its end if it does without a node, and at
any sound node. -/
theorem completes_at {t : Tree} {f : Option Node → Reporting β} (place : t.Place)
    (absent : (f none).Completes) (held : ∀ n : Node, n.Sound → (f (some n)).Completes) :
    ((liftM t.asNode? : Reporting (Option Node)) >>= f).Completes := by
  refine completes_lift_bind (Tree.gives_asNode? place) fun found given => ?_
  cases found with
  | none => exact absent
  | some n =>
    obtain ⟨-, sound⟩ := given n rfl
    exact held n sound

omit [Host] in
theorem completes_node {n : Node} {f : Node → Reporting β} (held : (f n).Completes) :
    ((liftM n.toTree.asNode : Reporting Node) >>= f).Completes :=
  completes_lift_bind (P := fun m => m = n) (gives_ok rfl) fun _ same => same ▸ held

end Reporting

open Reporting

variable [Host]

theorem SourceCode.gives_nodeLocation (source : SourceCode) {n : Node} (sound : n.Sound) :
    Gives (fun _ => True) (source.nodeLocation n) := by
  unfold nodeLocation
  split
  · exact gives_ok trivial
  · refine gives_bind sound.gives_start fun start _ => ?_
    cases start with
    | none => exact gives_ok trivial
    | some start => exact gives_ok trivial

namespace RuleContext

variable {context : RuleContext}

omit [Host] in
theorem report_completes {spot : Spot} {messageId : String}
    (placed : Gives (fun _ => True) (context.locate spot))
    (known : (context.info.messages.lookup messageId).isSome = true)
    (data : List (String × String)) (fix : Option Fix) :
    (context.report spot messageId data fix).Completes := by
  have made : Gives (fun _ => True) (context.violation spot messageId data fix) := by
    refine gives_bind placed fun place _ => ?_
    obtain ⟨template, found⟩ := Option.isSome_iff_exists.mp known
    dsimp only
    rw [found]
    exact gives_ok trivial
  exact completes_lift_bind made fun v _ => ⟨[v], (), rfl⟩

theorem reportAt_completes {n : Node} {messageId : String} (sound : n.Sound)
    (known : (context.info.messages.lookup messageId).isSome = true)
    (data : List (String × String)) : (context.reportAt n messageId data).Completes := by
  have placed : Gives (fun _ => True) (context.locate (.node n)) :=
    context.source.gives_nodeLocation sound
  exact report_completes placed known data none

/-- Path patterns are understood, if there are any. -/
def Understands (context : RuleContext) (items : List Value) : Prop :=
  PathFilter.kept items ≠ [] → ∃ test, context.host.pathSpec (PathFilter.kept items) = .ok test

/-- A rule can set to work: the file has a name, the options are what the rule takes, and the path
patterns among them are understood. -/
structure Ready (context : RuleContext) : Prop where
  host : context.host = ‹Host›
  named : ∃ name, context.filename = some name
  takes : context.info.Takes context.options
  understands : ∀ key ∈ ["ignore", "folders"], ∀ items,
    context.option? key = some (.list items) → context.Understands items

omit [Host] in
theorem gives_ofPatterns {items : List Value} (understood : context.Understands items)
    (root : Option String) :
    Gives (fun _ => True) (PathFilter.ofPatterns items root context.host.pathSpec) := by
  unfold PathFilter.ofPatterns
  dsimp only
  split
  · exact gives_ok trivial
  · rename_i some
    obtain ⟨test, read⟩ := understood (by simpa using some)
    rw [read]
    exact gives_ok trivial

variable {schema : OptionsSchema}

theorem gives_optionItems (ready : context.Ready) (described : context.info.schema = [schema])
    (key : String) (known : key ∈ schema.properties.map (·.1)) (whenAbsent : List String) :
    Gives (fun items => ∀ item ∈ items, ∃ text, item = .str text)
      (context.optionItems key whenAbsent) := by
  unfold optionItems
  split
  · rename_i v found
    obtain ⟨items, rfl, texts⟩ := isTexts_of_option? described known ready.takes found
    exact gives_ok texts
  · refine gives_ok fun item member => ?_
    obtain ⟨text, -, rfl⟩ := List.mem_map.mp member
    exact ⟨text, rfl⟩

theorem gives_ignorePatterns (ready : context.Ready) {properties : List (String × Members)}
    (described : context.info.schema = [.withIgnore properties]) :
    Gives context.Understands context.ignorePatterns := by
  unfold ignorePatterns
  cases found : context.option? "ignore" with
  | none => exact gives_ok fun some => absurd rfl some
  | some v =>
    obtain ⟨items, rfl, -⟩ :=
      isTexts_of_option? described List.mem_cons_self ready.takes found
    have understood := ready.understands "ignore" (by decide) items found
    cases items with
    | nil => exact gives_ok understood
    | cons item rest => exact gives_ok understood

theorem gives_isIgnored (ready : context.Ready) {properties : List (String × Members)}
    (described : context.info.schema = [.withIgnore properties]) :
    Gives (fun _ => True) context.isIgnored := by
  refine gives_bind (gives_ignorePatterns ready described) fun patterns understood => ?_
  exact gives_bind (gives_ofPatterns understood context.cwd) fun _ _ => gives_ok trivial

theorem gives_name (ready : context.Ready) : Gives (fun _ => True) context.name := by
  obtain ⟨name, named⟩ := ready.named
  unfold RuleContext.name
  rw [named]
  exact gives_ok trivial

end RuleContext

/-- At every sound node of a type a listener comes to its end, whatever it remembers. -/
def Listener.TotalAt (type : String) (listener : Listener) : Prop :=
  ∀ c : Cursor, c.Sound → c.node.type = type → ∀ memory, (listener (some c) memory).Completes

theorem Listener.stateless_totalAt {type : String} {look : Cursor → Reporting Unit}
    (each : ∀ c : Cursor, c.Sound → c.node.type = type → (look c).Completes) :
    (Listener.stateless look).TotalAt type := fun c sound isType _ =>
  completes_bind (each c sound isType) fun _ => completes_pure _

/-- Every listener comes to its end at the nodes that it waits for. -/
def Listeners.Total (listeners : Listeners) : Prop :=
  ∀ entry ∈ listeners, entry.2.TotalAt entry.1.type

/-- A rule that can set to work has listeners that come to their end. -/
def Rule.Total (rule : Rule) : Prop :=
  ∀ context : RuleContext, context.info = rule.info → context.Ready →
    Gives Listeners.Total (rule.listeners context)

theorem Rule.total_of_form {rule : Rule} {concerns : RuleContext → Read Bool}
    {body : RuleContext → Read Listeners} {properties : List (String × Members)}
    (form : rule.listeners = Rule.whenRelevant concerns body)
    (described : rule.info.schema = [.withIgnore properties])
    (tests : ∀ context : RuleContext, context.info = rule.info → context.Ready →
      Gives (fun _ => True) (concerns context))
    (makes : ∀ context : RuleContext, context.info = rule.info → context.Ready →
      Gives Listeners.Total (body context)) : rule.Total := by
  intro context same ready
  have idle : Gives Listeners.Total (.ok []) := gives_ok (List.forall_mem_nil _)
  rw [form]
  refine gives_bind (tests context same ready) fun concerned _ => ?_
  cases concerned with
  | false => exact idle
  | true =>
    have passes := RuleContext.gives_isIgnored ready (by rw [same]; exact described)
    refine gives_bind passes fun ignored _ => ?_
    cases ignored with
    | true => exact idle
    | false => exact makes context same ready

theorem Rule.total_of_table {rule : Rule} {concerns : RuleContext → Read Bool}
    {table : RuleContext → Listeners} {properties : List (String × Members)}
    (form : rule.listeners = Rule.whenRelevant concerns fun context => .ok (table context))
    (described : rule.info.schema = [.withIgnore properties])
    (tests : ∀ context : RuleContext, context.info = rule.info → context.Ready →
      Gives (fun _ => True) (concerns context))
    (each : ∀ context : RuleContext, context.info = rule.info → (table context).Total) :
    rule.Total :=
  Rule.total_of_form form described tests fun context same _ => gives_ok (each context same)

end TreeLint
