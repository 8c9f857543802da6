import TreeLint.Proofs.AlikeTrees
import TreeLint.Proofs.OpenNodes
import TreeLint.Proofs.RuleRuns

/-! Rules that look at one node at a time. Such a rule waits for nodes of some types to be entered
and remembers nothing. So what it reports in a run is what it reports on seeing each node alone, one
node after the other in the order of the walk. -/

namespace TreeLint

/-- What a rule does on entering nodes, by their types. -/
abbrev Looks := List (String × (Cursor → Reporting Unit))

namespace Looks

def listeners (looks : Looks) : Listeners :=
  looks.map fun (type, look) => (⟨type, .enter⟩, .stateless look)

/-- What a node leads to; one of a type that is not looked at leads to nothing. -/
def report (looks : Looks) (c : Cursor) : Reporting Unit :=
  match looks.lookup c.node.type with
  | some look => look c
  | none => pure ()

variable {looks : Looks} {c : Cursor} {visits : List Visit} {before after memory : Memory}
  {reports : List Violation} {ended : List Watcher}

theorem report_of_other (other : c.node.type ∉ looks.map (·.1)) : looks.report c = pure () := by
  have none : looks.lookup c.node.type = none := by
    refine List.lookup_eq_none_iff.mpr fun entry member => bne_iff_ne.mpr fun same => ?_
    exact other (List.mem_map.mpr ⟨entry, member, same.symm⟩)
  rw [report, none]

theorem awaiting_leave (looks : Looks) (type : String) :
    looks.listeners.awaiting ⟨type, .leave⟩ = [] := by
  rw [Listeners.awaiting, List.map_eq_nil_iff, List.filter_eq_nil_iff]
  intro entry member
  obtain ⟨look, -, rfl⟩ := List.mem_map.mp member
  simp

theorem awaiting_enter (distinct : (looks.map (·.1)).Nodup) (type : String) :
    looks.listeners.awaiting ⟨type, .enter⟩ =
      ((looks.lookup type).map Listener.stateless).toList := by
  induction looks with
  | nil => rfl
  | cons entry rest ih =>
    obtain ⟨other, look⟩ := entry
    obtain ⟨fresh, distinct⟩ := List.nodup_cons.mp distinct
    have later := ih distinct
    simp only [Listeners.awaiting, listeners, List.map_cons] at later ⊢
    by_cases same : other = type
    · subst same
      have none : rest.lookup other = none := by
        refine List.lookup_eq_none_iff.mpr fun entry member => bne_iff_ne.mpr fun same => ?_
        exact fresh (List.mem_map.mpr ⟨entry, member, same.symm⟩)
      simp [later, none]
    · rw [List.filter_cons_of_neg (by simpa using same), later,
        List.lookup_cons, beq_false_of_ne (Ne.symm same)]

theorem stateless_ok_iff {look : Cursor → Reporting Unit} :
    Listener.stateless look (some c) before = ⟨reports, .ok after⟩ ↔
      look c = ⟨reports, .ok ()⟩ ∧ after = before := by
  unfold Listener.stateless
  rw [Reporting.bind_eq_iff]
  constructor
  · rintro ⟨first, ⟨⟩, second, looked, kept, rfl⟩
    obtain ⟨rfl, rfl⟩ := Reporting.pure_eq_iff.mp kept
    rw [List.append_nil]
    exact ⟨looked, rfl⟩
  · rintro ⟨looked, rfl⟩
    exact ⟨reports, (), [], looked, rfl, (List.append_nil reports).symm⟩

/-- Entering a node, the listeners of a rule report what the node leads to. -/
theorem hears_enter_iff (distinct : (looks.map (·.1)).Nodup) :
    Watcher.Hears c (looks.listeners.awaiting ⟨c.node.type, .enter⟩) before reports after ↔
      looks.report c = ⟨reports, .ok ()⟩ ∧ after = before := by
  rw [awaiting_enter distinct, report]
  cases looks.lookup c.node.type with
  | none =>
    dsimp only [Option.map_none, Option.toList_none]
    rw [Reporting.pure_eq_iff]
    constructor
    · rintro ⟨⟩
      exact ⟨⟨rfl, rfl⟩, rfl⟩
    · rintro ⟨⟨rfl, -⟩, rfl⟩
      exact .none _
  | some look =>
    dsimp only [Option.map_some, Option.toList_some]
    rw [← stateless_ok_iff]
    constructor
    · rintro (_ | ⟨heard, ⟨⟩⟩)
      rwa [List.append_nil]
    · intro heard
      simpa using Watcher.Hears.next heard (.none _)

/-- Along visits a rule reports what the nodes that are entered lead to. -/
theorem follows_ok (distinct : (looks.map (·.1)).Nodup)
    (follows : Watcher.Follows visits [⟨looks.listeners, memory⟩] reports ended) :
    reports = (visits.filterMap Visit.entered?).flatMap (fun c => (looks.report c).reports) ∧
      ∀ c ∈ visits.filterMap Visit.entered?, (looks.report c).result = .ok () := by
  induction visits generalizing memory reports with
  | nil =>
    cases follows
    exact ⟨rfl, List.forall_mem_nil _⟩
  | cons visit rest ih =>
    cases follows with
    | next sees follows =>
      cases sees with
      | next hears others =>
        cases others
        obtain ⟨rfl, each⟩ := ih follows
        obtain ⟨phase, c⟩ := visit
        cases phase with
        | enter =>
          obtain ⟨looked, -⟩ := (hears_enter_iff (c := c) distinct).mp hears
          have entered : (⟨.enter, c⟩ :: rest).filterMap Visit.entered? =
              c :: rest.filterMap Visit.entered? := rfl
          rw [List.append_nil, entered, List.flatMap_cons, looked]
          exact ⟨rfl, List.forall_mem_cons.mpr ⟨by rw [looked], each⟩⟩
        | leave =>
          rw [Visit.selector, awaiting_leave] at hears
          cases hears
          exact ⟨rfl, each⟩

end Looks

/-- A violation of a rule marks a node: it stands where the node starts, with a message. -/
structure RuleContext.Marks (context : RuleContext) (n : Node) (messageId : String)
    (data : List (String × String)) (message : String) (v : Violation) : Prop where
  ruleId : v.ruleId = context.ruleId
  messageId : v.messageId = messageId
  message : v.message = message
  data : v.data = data
  file : v.file = context.filename
  place : context.source.nodeLocation n = .ok (v.line, v.column)
  severity : v.severity = context.severity

theorem RuleContext.marks_of_reportAt {context : RuleContext} {n : Node} {messageId : String}
    {data : List (String × String)} {template : String} {reports : List Violation}
    (held : context.info.messages.lookup messageId = some template)
    (reported : context.reportAt n messageId data = ⟨reports, .ok ()⟩) :
    ∃ v, reports = [v] ∧
      context.Marks n messageId data (Message.interpolate template data) v := by
  obtain ⟨v, made, given⟩ := Reporting.lift_bind_eq_iff.mp reported
  cases given
  obtain ⟨line, column, found, placed, held', rfl⟩ := violation_ok_iff.mp made
  obtain rfl := Option.some.inj (held.symm.trans held')
  exact ⟨_, rfl, rfl, rfl, rfl, rfl, rfl, placed, rfl⟩

/-- A rule that a file concerns, and that is not told to ignore it, listens as its table says. -/
theorem Rule.listeners_of_looks {rule : Rule} {concerns : RuleContext → Read Bool}
    (table : RuleContext → Looks)
    (form : rule.listeners = Rule.whenRelevant concerns fun context => .ok (table context).listeners)
    {context : RuleContext} (concerned : concerns context = .ok true)
    (heeded : context.isIgnored = .ok false) :
    rule.listeners context = .ok (table context).listeners := by
  rw [form, whenRelevant, concerned, heeded]
  rfl

namespace Lint

variable [Host] {config : Configuration} {file : ParsedFile} {cwd : Option String}
  {rule : Rule} {setting : RuleSetting} {looks : Looks} {emitted : List Violation}

/-- In a run the reports of a rule are those that the nodes lead to, in preorder, and no node leads
to a fault. -/
theorem reports_of_looks (distinct : (looks.map (·.1)).Nodup)
    (enabled : (rule, setting) ∈ config.enabledRules)
    (made : rule.listeners (contextFor file cwd rule setting) = .ok looks.listeners)
    (emits : Emits file cwd config.enabledRules emitted) :
    let root := Cursor.ofRoot file.source.root
    emitted.filter (·.ruleId == rule.name) =
        root.preorder.flatMap (fun c => (looks.report c).reports) ∧
      ∀ c, root.Below c → (looks.report c).result = .ok () := by
  intro root
  obtain ⟨before, after, atWork, follows⟩ := emits
  obtain ⟨⟨listeners, memory⟩, ended, works, alone⟩ := follows_own enabled atWork follows
  obtain rfl : looks.listeners = listeners := Except.ok.inj (made.symm.trans works.1)
  obtain ⟨same, each⟩ := Looks.follows_ok distinct alone
  exact ⟨same, fun c below => each c (Cursor.mem_preorder_iff.mpr below)⟩

/-- Where the reports of each node tell of what is found at it, those of a run tell of what is found
at the nodes, in preorder. -/
theorem tells_of_looks {α : Type} {Tells : α → Violation → Prop} {found : Cursor → List α}
    (distinct : (looks.map (·.1)).Nodup) (enabled : (rule, setting) ∈ config.enabledRules)
    (made : rule.listeners (contextFor file cwd rule setting) = .ok looks.listeners)
    (emits : Emits file cwd config.enabledRules emitted)
    (tells : ∀ c reports, looks.report c = ⟨reports, .ok ()⟩ → List.Forall₂ Tells (found c) reports) :
    List.Forall₂ Tells ((Cursor.ofRoot file.source.root).preorder.flatMap found)
      (emitted.filter (·.ruleId == rule.name)) := by
  obtain ⟨same, each⟩ := reports_of_looks distinct enabled made emits
  rw [same]
  refine forall₂_flatMap (R := Eq) (List.forall₂_same.mpr fun _ _ => rfl) ?_
  rintro c visited _ rfl
  refine tells c _ ?_
  rw [← each c (Cursor.mem_preorder_iff.mp visited)]

end Lint

end TreeLint
