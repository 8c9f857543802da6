import TreeLint.Proofs.AlikeRules
import TreeLint.Proofs.Emission

/-! Runs on alike trees. The rules that are set to work on one tree enter alike listeners in the
same tables as on the other; along alike visits these make the same calls, and so the runs have one
result, or stop at one fault. -/

namespace TreeLint

theorem Listeners.Alike.awaiting {made others : Listeners} (alike : Listeners.Alike made others)
    (selector : Selector) :
    List.Forall₂ Listener.Alike (made.awaiting selector) (others.awaiting selector) := by
  induction alike with
  | nil => exact .nil
  | @cons one two rest more here _ ih =>
    obtain ⟨same, listener⟩ := here
    unfold Listeners.awaiting at ih ⊢
    rw [List.filter_cons, List.filter_cons, same]
    split
    · exact .cons listener ih
    · exact ih

/-- Callbacks of one rule that do the same at alike nodes. -/
structure Callback.Alike (one two : Callback) : Prop where
  rule : one.rule = two.rule
  listener : one.listener.Alike two.listener

/-- Tables that lead to alike callbacks at every visit. -/
def Dispatch.Alike (one two : Dispatch) : Prop :=
  ∀ selector, List.Forall₂ Callback.Alike (one.callbacks selector) (two.callbacks selector)

namespace Dispatch

variable {d e : Dispatch}

theorem Alike.addAll (alike : d.Alike e) (number : Nat) {made others : Listeners}
    (listeners : Listeners.Alike made others) :
    (made.foldl (add number) d).Alike (others.foldl (add number) e) := by
  intro selector
  rw [callbacks_addAll, callbacks_addAll]
  apply List.rel_append (alike selector)
  rw [List.forall₂_map_left_iff, List.forall₂_map_right_iff]
  exact (listeners.awaiting selector).imp fun _ _ same => ⟨rfl, same⟩

theorem call_alike {c c' : Cursor} (nodes : c.Alike c') {callbacks others : List Callback}
    (alike : List.Forall₂ Callback.Alike callbacks others) (memories : List Memory) :
    call c callbacks memories = call c' others memories := by
  induction alike generalizing memories with
  | nil => rfl
  | cons here _ ih =>
    rw [call, call, here.rule, here.listener _ _ nodes]
    apply bind_congr
    intro memory
    exact ih _

theorem follow_alike (tables : d.Alike e) {visits others : List Visit}
    (alike : List.Forall₂ Visit.Alike visits others) (found : List Violation)
    (memories : List Memory) : d.follow found memories visits = e.follow found memories others := by
  induction alike generalizing found memories with
  | nil => rfl
  | @cons v w _ _ here _ ih =>
    have waits : v.selector = w.selector := by
      unfold Visit.selector
      rw [here.phase, here.cursor.node.type]
    rw [follow, follow, waits, call_alike here.cursor (tables w.selector)]
    simp only [ih]

end Dispatch

def ParsedFile.withRoot (file : ParsedFile) (root : Node) : ParsedFile :=
  { file with source := { file.source with root } }

namespace Lint

variable [Host] {file : ParsedFile} {cwd : Option String}

theorem prepare_alike (root : Node) {rules : List (Rule × RuleSetting)}
    (steady : ∀ entry ∈ rules, entry.1.Steady) (number : Nat) {d e : Dispatch}
    (tables : d.Alike e) : Read.Both Dispatch.Alike (prepare file cwd number d rules)
      (prepare (file.withRoot root) cwd number e rules) := by
  induction rules generalizing number d e with
  | nil => exact .ok tables
  | cons entry rest ih =>
    obtain ⟨rule, setting⟩ := entry
    obtain ⟨here, others⟩ := List.forall_mem_cons.mp steady
    apply (here (contextFor file cwd rule setting) root).bind
    intro made more listeners
    exact ih others (number + 1) (tables.addAll number listeners)

theorem emission_alike {root : Node} (alike : file.source.root.Alike root)
    {rules : List (Rule × RuleSetting)} (steady : ∀ entry ∈ rules, entry.1.Steady) :
    emission file cwd rules = emission (file.withRoot root) cwd rules := by
  have idle : Dispatch.empty.Alike .empty := by
    intro selector
    rw [Dispatch.callbacks_empty]
    exact .nil
  unfold emission
  simp only [Dispatch.follow_unless_isEmpty]
  apply (prepare_alike root steady 0 idle).bind_eq
  intro d e tables
  exact Dispatch.follow_alike tables alike.walk [] _

/-- Runs do not tell alike trees apart. -/
theorem run_alike {root : Node} (alike : file.source.root.Alike root) (config : Configuration) :
    run config file cwd = run config (file.withRoot root) cwd := by
  have steady : ∀ entry ∈ config.enabledRules, entry.1.Steady := fun entry enabled =>
    Registry.standard_steady _ (config.known_of_enabled entry enabled)
  unfold run
  rw [emission_alike alike steady]
  rfl

end Lint

end TreeLint
