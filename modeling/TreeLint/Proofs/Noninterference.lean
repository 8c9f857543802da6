import TreeLint.Proofs.Emission
import TreeLint.Proofs.RuleReports

/-! Rules do not interfere. A run in which some of the rules at work are taken away, or pass over the
file, follows the full run step by step: it has the same memories for the rules that are left, and
reports what they report. -/

namespace TreeLint

namespace RuleContext

/-- A pattern of files to ignore chooses the file, as its path is given or as it reads from the
working directory. -/
def PassesOver (context : RuleContext) : Prop :=
  ∃ patterns test name form, context.ignorePatterns = .ok patterns ∧
    PathFilter.kept patterns ≠ [] ∧ context.host.pathSpec (PathFilter.kept patterns) = .ok test ∧
    context.filename = some name ∧ name ≠ "" ∧
    form ∈ PathFilter.forms context.cwd name ∧ test form.text = true

theorem isIgnored_of_passesOver {context : RuleContext} (passes : context.PassesOver) :
    context.isIgnored = .ok true := by
  obtain ⟨patterns, test, name, form, listed, some, understood, named, visible, tried, chosen⟩ :=
    passes
  have written : (PathFilter.kept patterns).isEmpty = false := by
    simpa only [List.isEmpty_eq_false_iff] using some
  have filter : PathFilter.ofPatterns patterns context.cwd context.host.pathSpec =
      .ok ⟨PathFilter.kept patterns, .some test, context.cwd⟩ := by
    simp only [PathFilter.ofPatterns, written, understood]
    rfl
  have accepts : PathFilter.accepts ⟨PathFilter.kept patterns, .some test, context.cwd⟩ name =
      true := by
    simp only [PathFilter.accepts, Bool.and_eq_true, bne_iff_ne, List.any_eq_true]
    exact ⟨visible, form, tried, chosen⟩
  refine bind_ok_iff.mpr ⟨patterns, listed, bind_ok_iff.mpr ⟨_, filter, ?_⟩⟩
  rw [named, Option.any_some, accepts]
  rfl

end RuleContext

/-- A rule that works on a file has no listeners for it once a pattern tells it to pass over the
file. -/
theorem Rule.listeners_eq_nil {rule : Rule} (regular : rule.Regular) {one two : RuleContext}
    {made : Listeners} (works : rule.listeners one = .ok made) (agrees : one.AgreesWith two)
    (passes : two.PassesOver) : rule.listeners two = .ok [] := by
  obtain ⟨concerns, body, form, blind, -⟩ := regular
  rw [form] at works ⊢
  obtain ⟨concerned, tested, -⟩ := bind_ok_iff.mp works
  refine bind_ok_iff.mpr ⟨concerned, (blind one two agrees) ▸ tested, ?_⟩
  cases concerned with
  | false => rfl
  | true => exact bind_ok_iff.mpr ⟨true, two.isIgnored_of_passesOver passes, rfl⟩

theorem Rule.madeBy_of_listeners {rule : Rule} (regular : rule.Regular) {context : RuleContext}
    {made : Listeners} (works : rule.listeners context = .ok made) :
    ∀ entry ∈ made, entry.2.MadeBy context rule.info := by
  obtain ⟨concerns, body, form, -, makes⟩ := regular
  rw [form] at works
  obtain rfl | given := whenRelevant_ok works
  · exact List.forall_mem_nil _
  · exact makes context made given

namespace Watcher

/-- All that a rule at work may ever report has a property. -/
def Reports (P : Violation → Prop) (watcher : Watcher) : Prop :=
  ∀ entry ∈ watcher.listeners, ∀ visited memory, (entry.2 visited memory).Only P

/-- All that a rule at work may report at a node has a property that concerns the node. -/
def ReportsAt (P : Cursor → Violation → Prop) (watcher : Watcher) : Prop :=
  ∀ entry ∈ watcher.listeners, ∀ c memory, (entry.2 (some c) memory).Only (P c)

theorem Reports.at {P : Violation → Prop} {watcher : Watcher} (each : watcher.Reports P) :
    watcher.ReportsAt fun _ => P := fun entry member c => each entry member (some c)

theorem Hears.only {P : Violation → Prop} {cursor : Cursor} {listeners : List Listener}
    {before after : Memory} {reports : List Violation}
    (hears : Hears cursor listeners before reports after)
    (each : ∀ listener ∈ listeners, ∀ memory, (listener (some cursor) memory).Only P) :
    ∀ v ∈ reports, P v := by
  induction hears with
  | none => exact List.forall_mem_nil P
  | @next listener rest memory _ _ _ _ heard _ ih =>
    obtain ⟨first, others⟩ := List.forall_mem_cons.mp each
    refine List.forall_mem_append.mpr ⟨?_, ih others⟩
    have reported := first memory
    rw [heard] at reported
    exact reported

theorem ReportsAt.hears {P : Cursor → Violation → Prop} {listeners : Listeners}
    {memory before after : Memory} {visit : Visit} {reports : List Violation}
    (each : ReportsAt P ⟨listeners, memory⟩)
    (hears : Hears visit.cursor (listeners.awaiting visit.selector) before reports after) :
    ∀ v ∈ reports, P visit.cursor v := by
  refine hears.only fun listener member => ?_
  obtain ⟨entry, waiting, rfl⟩ := List.mem_map.mp member
  exact each entry (List.mem_filter.mp waiting).1 visit.cursor

/-- What is left of rules at work when only some reports are wanted: a rule that makes these stays,
and one that makes others is taken away or has nothing to listen for. -/
inductive Keeps (wanted : Violation → Bool) : List Watcher → List Watcher → Prop
  | none : Keeps wanted [] []
  | kept {watcher : Watcher} {rest left : List Watcher} :
      watcher.Reports (fun v => wanted v = true) → Keeps wanted rest left →
      Keeps wanted (watcher :: rest) (watcher :: left)
  | removed {watcher : Watcher} {rest left : List Watcher} :
      watcher.Reports (fun v => wanted v = false) → Keeps wanted rest left →
      Keeps wanted (watcher :: rest) left
  | idle {watcher : Watcher} {rest left : List Watcher} (memory : Memory) :
      watcher.Reports (fun v => wanted v = false) → Keeps wanted rest left →
      Keeps wanted (watcher :: rest) (⟨[], memory⟩ :: left)

variable {wanted : Violation → Bool}

theorem Reports.filter_hears {listeners : Listeners} {memory before after : Memory}
    {visit : Visit} {reports : List Violation}
    (each : Reports (fun v => wanted v = false) ⟨listeners, memory⟩)
    (hears : Hears visit.cursor (listeners.awaiting visit.selector) before reports after) :
    reports.filter wanted = [] := by
  refine List.filter_eq_nil_iff.mpr fun v member => ?_
  exact Bool.eq_false_iff.mp (each.at.hears hears v member)

theorem Keeps.sees {visit : Visit} {before left after : List Watcher} {reports : List Violation}
    (keeps : Keeps wanted before left) (sees : Sees visit before reports after) :
    ∃ left', Sees visit left (reports.filter wanted) left' ∧ Keeps wanted after left' := by
  induction keeps generalizing reports after with
  | none =>
    cases sees
    exact ⟨[], .none, .none⟩
  | kept wants _ ih =>
    cases sees with
    | next hears sees =>
      obtain ⟨left', seen, keeps⟩ := ih sees
      have all := List.filter_eq_self.mpr (wants.at.hears hears)
      rw [List.filter_append, all]
      exact ⟨_, .next hears seen, .kept wants keeps⟩
  | removed unwanted _ ih =>
    cases sees with
    | next hears sees =>
      obtain ⟨left', seen, keeps⟩ := ih sees
      rw [List.filter_append, unwanted.filter_hears hears]
      exact ⟨left', seen, .removed unwanted keeps⟩
  | idle memory unwanted _ ih =>
    cases sees with
    | next hears sees =>
      obtain ⟨left', seen, keeps⟩ := ih sees
      rw [List.filter_append, unwanted.filter_hears hears]
      exact ⟨_, .next (.none memory) seen, .idle memory unwanted keeps⟩

theorem Keeps.follows {visits : List Visit} {before left after : List Watcher}
    {reports : List Violation} (keeps : Keeps wanted before left)
    (follows : Follows visits before reports after) :
    ∃ left', Follows visits left (reports.filter wanted) left' ∧ Keeps wanted after left' := by
  induction follows generalizing left with
  | none watchers => exact ⟨left, .none left, keeps⟩
  | next sees _ ih =>
    obtain ⟨between, seen, keeps⟩ := keeps.sees sees
    obtain ⟨left', follows, keeps⟩ := ih keeps
    rw [List.filter_append]
    exact ⟨left', .next seen follows, keeps⟩

end Watcher

namespace Lint

section

variable [Host] {file : ParsedFile} {cwd : Option String}

theorem reports_of_atWork {entry : Rule × RuleSetting} {watcher : Watcher}
    (known : entry.1 ∈ Registry.standard.rules) (atWork : AtWork file cwd entry watcher) :
    watcher.Reports fun v => v.ruleId = entry.1.name := by
  intro listened member visited memory v reported
  have makes := Rule.madeBy_of_listeners (Registry.standard_regular _ known) atWork.1
  exact RuleContext.ruleId_of_makes (makes listened member visited memory v reported)

/-- What becomes of the setting of an enabled rule when some rules are chosen: it stays if the rule
is chosen; else the rule is still enabled, but a pattern tells it to pass over the file. -/
def Muted (file : ParsedFile) (cwd : Option String) (chosen : String → Bool)
    (entry other : Rule × RuleSetting) : Prop :=
  other.1 = entry.1 ∧ (chosen entry.1.name = true → other.2 = entry.2) ∧
    (chosen entry.1.name = false →
      (contextFor file cwd entry.1 entry.2).AgreesWith
          (contextFor file cwd other.1 other.2) ∧
        (contextFor file cwd other.1 other.2).PassesOver)

variable {chosen : String → Bool}

theorem wants_of_atWork (chosen : String → Bool) {entry : Rule × RuleSetting} {watcher : Watcher}
    (known : entry.1 ∈ Registry.standard.rules) (atWork : AtWork file cwd entry watcher) :
    watcher.Reports fun v => chosen v.ruleId = chosen entry.1.name := by
  intro listened member visited memory v reported
  rw [reports_of_atWork known atWork listened member visited memory v reported]

theorem keeps_chosen {rules : List (Rule × RuleSetting)} {watchers : List Watcher}
    (known : ∀ entry ∈ rules, entry.1 ∈ Registry.standard.rules)
    (atWork : List.Forall₂ (AtWork file cwd) rules watchers) :
    ∃ left, List.Forall₂ (AtWork file cwd)
        (rules.filter fun entry => chosen entry.1.name) left ∧
      Watcher.Keeps (fun v => chosen v.ruleId) watchers left := by
  induction atWork with
  | nil => exact ⟨[], .nil, .none⟩
  | @cons entry watcher rules watchers works _ ih =>
    obtain ⟨here, others⟩ := List.forall_mem_cons.mp known
    obtain ⟨left, atWork, keeps⟩ := ih others
    have wants := wants_of_atWork chosen here works
    cases selected : chosen entry.1.name with
    | true =>
      rw [selected] at wants
      rw [List.filter_cons_of_pos (by exact selected)]
      exact ⟨watcher :: left, .cons works atWork, .kept wants keeps⟩
    | false =>
      rw [selected] at wants
      rw [List.filter_cons_of_neg (by simp [selected])]
      exact ⟨left, atWork, .removed wants keeps⟩

theorem keeps_muted {rules others : List (Rule × RuleSetting)} {watchers : List Watcher}
    (known : ∀ entry ∈ rules, entry.1 ∈ Registry.standard.rules)
    (muted : List.Forall₂ (Muted file cwd chosen) rules others)
    (atWork : List.Forall₂ (AtWork file cwd) rules watchers) :
    ∃ left, List.Forall₂ (AtWork file cwd) others left ∧
      Watcher.Keeps (fun v => chosen v.ruleId) watchers left := by
  induction muted generalizing watchers with
  | nil =>
    cases atWork
    exact ⟨[], .nil, .none⟩
  | @cons entry other rules others change _ ih =>
    cases atWork with
    | @cons _ watcher _ watchers works atWork =>
      obtain ⟨here, more⟩ := List.forall_mem_cons.mp known
      obtain ⟨left, atWork, keeps⟩ := ih more atWork
      have wants := wants_of_atWork chosen here works
      obtain ⟨rule, setting⟩ := entry
      obtain ⟨same, setting'⟩ := other
      obtain ⟨rfl, stays, passes⟩ := change
      cases selected : chosen same.name with
      | true =>
        obtain rfl := stays selected
        simp only [selected] at wants
        exact ⟨watcher :: left, .cons works atWork, .kept wants keeps⟩
      | false =>
        obtain ⟨agrees, ignores⟩ := passes selected
        have silent := Rule.listeners_eq_nil (Registry.standard_regular _ here) works.1 agrees ignores
        simp only [selected] at wants
        exact ⟨⟨[], []⟩ :: left, .cons ⟨silent, rfl⟩ atWork, .idle [] wants keeps⟩

/-- A run of rules of which some are left reports what these report in the full run. -/
theorem run_of_keeps {config other : Configuration} {result : LintResult}
    (ran : run config file cwd = .ok result) {wanted : Violation → Bool}
    (left : ∀ watchers, List.Forall₂ (AtWork file cwd) config.enabledRules watchers →
      ∃ left, List.Forall₂ (AtWork file cwd) other.enabledRules left ∧
        Watcher.Keeps wanted watchers left) :
    run other file cwd =
      .ok { result with violations := result.violations.filter wanted } := by
  obtain ⟨emitted, ⟨before, after, atWork, follows⟩, sorted, named, unmended, none⟩ :=
    (run_ok_iff ..).mp ran
  obtain ⟨watchers, works, keeps⟩ := left before atWork
  obtain ⟨ended, follows, -⟩ := keeps.follows follows
  exact (run_ok_iff ..).mpr ⟨emitted.filter wanted, ⟨watchers, ended, works, follows⟩,
    sorted.filter wanted, named, unmended, none⟩

/-- Rules do not interfere. Of a run that gives a result, the violations of some rules are those of
the run in which only these rules are enabled, and those of a run in which the others are enabled
but ignore the file. -/
theorem run_filter (config : Configuration) (file : ParsedFile) (cwd : Option String)
    (result : LintResult) (ran : run config file cwd = .ok result) (chosen : String → Bool) :
    (∀ narrowed : Configuration,
      narrowed.enabledRules = config.enabledRules.filter (fun entry => chosen entry.1.name) →
      run narrowed file cwd = .ok
        { result with violations := result.violations.filter fun v => chosen v.ruleId }) ∧
    (∀ muted : Configuration,
      List.Forall₂ (Muted file cwd chosen) config.enabledRules muted.enabledRules →
      run muted file cwd = .ok
        { result with violations := result.violations.filter fun v => chosen v.ruleId }) := by
  have known := config.known_of_enabled
  refine ⟨fun narrowed enabled => ?_, fun muted changes => ?_⟩
  · refine run_of_keeps ran fun watchers atWork => ?_
    rw [enabled]
    exact keeps_chosen known atWork
  · exact run_of_keeps ran fun watchers atWork => keeps_muted known changes atWork

end

attribute [local instance] Host.usual in
set_option maxRecDepth 100000 in
/-- Of a file that breaks two rules, the default export alone is reported when the other rule is
switched off, or ignores the file. -/
theorem run_filter_defaultExport :
    let file : ParsedFile := ⟨some "Bad.tsx", ⟨[], ⟨"Program",
      [("body", .list [.node "ExportDefaultDeclaration" []])]⟩, []⟩, none⟩
    let byExport := ("no-default-export", (⟨.error, []⟩ : RuleSetting))
    let byName (options : List Value) :=
      ("enforce-kebab-case-filenames", (⟨.warn, options⟩ : RuleSetting))
    let ignoring := Value.object [("ignore", .list [.str "*.tsx"])]
    ∃ result, run ⟨[], [byExport, byName []]⟩ file none = .ok result ∧
      ∀ narrowed ∈ [(⟨[], [byExport]⟩ : Configuration), ⟨[], [byExport, byName [ignoring]]⟩],
        run narrowed file none = .ok { result with
          violations := result.violations.filter (·.ruleId == "no-default-export") } := by
  intro file byExport byName ignoring
  have gives : ((run ⟨[], [byExport, byName []]⟩ file none).toOption.isSome) = true := by
    decide +kernel
  obtain ⟨test, understood, chooses⟩ : ∃ test, PathSpec.versionControl ["*.tsx"] = .ok test ∧
      test "Bad.tsx" = true := by
    have read : (PathSpec.versionControl ["*.tsx"]).toOption.any (· "Bad.tsx") = true := by
      decide +kernel
    exact exists_ok_of_any read
  obtain ⟨result, ran⟩ := exists_ok_of_isSome gives
  refine ⟨result, ran, ?_⟩
  obtain ⟨narrowed, muted⟩ := run_filter ⟨[], [byExport, byName []]⟩ file none
    result ran (· == "no-default-export")
  simp only [List.forall_mem_cons, List.not_mem_nil, false_implies, implies_true, and_true]
  refine ⟨narrowed _ rfl, muted _ (.cons ⟨rfl, nofun, fun _ => ⟨⟨rfl, rfl, rfl, ?_⟩, ?_⟩⟩
    (.cons ⟨rfl, fun _ => rfl, nofun⟩ .nil))⟩
  · intro key other
    have absent : List.lookup key [("ignore", Value.list [.str "*.tsx"])] = none := by
      rw [Table.lookup_cons_eq_ite, if_neg (Ne.symm other), List.lookup_nil]
    exact absent.symm
  · exact ⟨[.str "*.tsx"], test, "Bad.tsx", .ofString "Bad.tsx", rfl, by decide, understood, rfl,
      by decide, List.mem_singleton_self _, chooses⟩

end Lint

end TreeLint
