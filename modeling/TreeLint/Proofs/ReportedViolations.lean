import TreeLint.Proofs.BracedText

/-! Violations that a run gives. Each of them is one of an enabled rule, at its severity and with a
filled message of the rule; and a change that comes with one goes from the start to the end of the
braces at which it is reported. -/

namespace TreeLint

/-- A change that comes with a violation replaces the braces around the value of an attribute, at
which the violation stands. -/
def Violation.MendsAt (source : SourceCode) (c : Cursor) (v : Violation) : Prop :=
  ∀ f, v.fix = some f → ∃ container : Node, c.node.get "value" = container.toTree ∧
    container.type = "JSXExpressionContainer" ∧
    source.nodeLocation container = .ok (v.line, v.column) ∧
    container.start = .ok (some f.start) ∧ container.stop = .ok (some f.stop)

namespace Rules.CurlyText
open Reporting

theorem checkAttribute_mendsAt (context : RuleContext) (c : Cursor) :
    (checkAttribute context c).Only (Violation.MendsAt context.source c) := by
  unfold checkAttribute
  refine only_lift_bind_of_ok fun value held => ?_
  cases value with
  | none => exact only_pure ()
  | some container =>
    dsimp only
    split
    · exact only_pure ()
    next contains =>
      refine only_lift_bind fun text => ?_
      cases text with
      | none => exact only_pure ()
      | some text =>
        refine only_lift_bind fun source => only_lift_bind fun name => ?_
        refine only_lift_bind_of_ok fun fix replaced => only_lift_bind_of_ok fun v made => ?_
        refine List.forall_mem_singleton.mpr fun f offered => ?_
        obtain ⟨line, column, template, placed, -, rfl⟩ := RuleContext.violation_ok_iff.mp made
        dsimp only at offered
        split at offered
        · subst offered
          obtain ⟨begins, ends, -⟩ := Fix.replacing_ok_iff.mp replaced
          exact ⟨container, Tree.asNode?_eq_some_iff.mp held, by simpa using contains, placed,
            begins, ends⟩
        · cases offered

end Rules.CurlyText

namespace Lint
open Rules

variable [Host] {file : ParsedFile} {cwd : Option String}

/-- What a rule at work reports at a node is what the rule makes, with changes at the node. -/
theorem reportsAt_of_atWork {entry : Rule × RuleSetting} {watcher : Watcher}
    (known : entry.1 ∈ Registry.standard.rules) (atWork : AtWork file cwd entry watcher) :
    watcher.ReportsAt fun c v =>
      (contextFor file cwd entry.1 entry.2).Makes entry.1.info v ∧
        (v.fix.isSome = true → entry.1 = CurlyText.rule) ∧ v.MendsAt file.source c := by
  intro listened member c memory v reported
  have made := Rule.madeBy_of_listeners (Registry.standard_regular _ known) atWork.1 listened member
    (some c) memory v reported
  have only (offers : v.fix.isSome = true) : entry.1 = CurlyText.rule :=
    Registry.eq_of_name known Registry.curlyText_mem
      (Registry.name_of_fixable entry.1 known (RuleContext.fix_of_makes made offers))
  refine ⟨made, only, fun f offered => ?_⟩
  obtain ⟨rule, setting⟩ := entry
  obtain rfl : rule = CurlyText.rule := only (by rw [offered]; rfl)
  rcases CurlyText.listeners_eq atWork.1 with ⟨-, idle⟩ | ⟨-, listens⟩
  · rw [idle] at member
    cases member
  · rw [listens] at member
    obtain rfl := List.mem_singleton.mp member
    exact Listener.only_stateless (CurlyText.checkAttribute_mendsAt _ c) memory v reported f offered

end Lint

/-- A violation in a file is one of a rule in a setting: it carries the name of the rule, the
severity of the setting, the name of the file and a filled message of the rule, and only one rule
mends what it reports. -/
structure Violation.StandsFor (v : Violation) (file : ParsedFile) (rule : Rule)
    (setting : RuleSetting) : Prop where
  ruleId : v.ruleId = rule.name
  severity : v.severity = setting.severity
  weighs : v.severity ≠ .off
  place : v.file = file.filename
  message : ∃ template, rule.info.messages.lookup v.messageId = some template ∧
    Message.Filled v.data template.toList v.message.toList
  mends : v.fix.isSome = true → rule = Rules.CurlyText.rule ∧
    ∃ c, (Cursor.ofRoot file.source.root).Below c ∧ v.MendsAt file.source c

theorem Configuration.severity_of_enabled {config : Configuration} {entry : Rule × RuleSetting}
    (enabled : entry ∈ config.enabledRules) : entry.2.severity ≠ .off := by
  obtain ⟨rule, -, chosen⟩ := List.mem_filterMap.mp enabled
  split at chosen
  · split at chosen
    · rename_i setting _ on
      cases chosen
      simpa [RuleSetting.isEnabled] using on
    · cases chosen
  · cases chosen

namespace LintResult

/-- A violation that weighs anything is an error or a warning. -/
theorem errorCount_add_warningCount {result : LintResult}
    (weigh : ∀ v ∈ result.violations, v.severity ≠ .off) :
    result.errorCount + result.warningCount = result.violations.length := by
  unfold errorCount warningCount count
  rw [List.length_eq_countP_add_countP fun v : Violation => v.severity == .error]
  congr 1
  refine List.countP_congr fun v member => ?_
  have some := weigh v member
  cases held : v.severity <;> simp_all

end LintResult

namespace Lint

section

variable [Host] {file : ParsedFile} {cwd : Option String}

theorem standsFor_of_makes {rule : Rule} {setting : RuleSetting} {v : Violation}
    (on : setting.severity ≠ .off)
    (makes : (contextFor file cwd rule setting).Makes rule.info v)
    (mends : v.fix.isSome = true → rule = Rules.CurlyText.rule ∧
      ∃ c, (Cursor.ofRoot file.source.root).Below c ∧ v.MendsAt file.source c) :
    v.StandsFor file rule setting := by
  obtain ⟨spot, messageId, data, fix, ⟨template, held, slots⟩, made⟩ := makes
  obtain ⟨line, column, found, -, held', rfl⟩ := RuleContext.violation_ok_iff.mp made
  obtain rfl := Option.some.inj (held'.symm.trans held)
  exact ⟨rfl, rfl, on, rfl, ⟨found, held, Message.filled_interpolate slots⟩, mends⟩

/-- Every violation that a run gives stands for an enabled rule in its setting, and is an error or a
warning. -/
theorem violations_standFor (config : Configuration) (file : ParsedFile) (cwd : Option String)
    (result : LintResult) (ran : run config file cwd = .ok result) :
    (∀ v ∈ result.violations, ∃ entry ∈ config.enabledRules, v.StandsFor file entry.1 entry.2) ∧
      result.errorCount + result.warningCount = result.violations.length := by
  obtain ⟨emitted, ⟨before, after, atWork, follows⟩, sorted, -⟩ := (run_ok_iff ..).mp ran
  have each : ∀ watcher ∈ before, watcher.ReportsAt fun c v => ∃ entry ∈ config.enabledRules,
      (contextFor file cwd entry.1 entry.2).Makes entry.1.info v ∧
        (v.fix.isSome = true → entry.1 = Rules.CurlyText.rule) ∧ v.MendsAt file.source c := by
    intro watcher member listened listens c memory v reported
    obtain ⟨entry, enabled, works⟩ := exists_of_forall₂ atWork member
    have known := config.known_of_enabled _ enabled
    exact ⟨entry, enabled, reportsAt_of_atWork known works listened listens c memory v reported⟩
  have stand : ∀ v ∈ result.violations, ∃ entry ∈ config.enabledRules,
      v.StandsFor file entry.1 entry.2 := by
    intro v member
    obtain ⟨visit, visited, entry, enabled, makes, only, mends⟩ :=
      follows.onlyAt each v (sorted.perm.subset member)
    have below := (Cursor.mem_visits_iff _ visit).mp visited
    exact ⟨entry, enabled, standsFor_of_makes (Configuration.severity_of_enabled enabled) makes
      fun offers => ⟨only offers, visit.cursor, below, mends⟩⟩
  refine ⟨stand, LintResult.errorCount_add_warningCount fun v member => ?_⟩
  obtain ⟨entry, -, stands⟩ := stand v member
  exact stands.weighs

end

/-- A file with an import whose path looks like a slot, and an attribute with braces. -/
def slotFile : ParsedFile where
  filename := some "a.tsx"
  source := ⟨"0123456789ab".toList, ⟨"Program", [("body", .list [
    .node "ImportDeclaration" [("source", .node "Literal" [
      ("value", .value (.str "./\x7b\x7baliases\x7d\x7d"))])],
    .node "JSXAttribute" [("value", .node "JSXExpressionContainer" [
      ("range", .value (.list [.int 2, .int 7])),
      ("expression", .node "Literal" [("value", .value (.str "x"))])])]])]⟩, []⟩
  sourcePath := none

def slotConfig : Configuration :=
  ⟨[], [("enforce-alias-import-paths", ⟨.error, []⟩),
    ("no-unnecessary-curly-in-props", ⟨.warn, []⟩)]⟩

attribute [local instance] Host.usual in
/-- The path is put into the message as it stands. -/
theorem violations_standFor_slotFile : ∃ result, run slotConfig slotFile none = .ok result ∧
    (result.violations.map (·.message)).Perm
      ["Relative import path \"./\x7b\x7baliases\x7d\x7d\" detected. Use an alias import path " ++
        "(e.g., @) instead.",
       "Unnecessary curly braces for string literal prop ''. Use plain string instead."] ∧
    (∀ v ∈ result.violations, ∃ entry ∈ slotConfig.enabledRules,
      v.StandsFor slotFile entry.1 entry.2) ∧
    result.errorCount + result.warningCount = 2 := by
  have gives : (emission slotFile none slotConfig.enabledRules).toOption.map
      (·.map (·.message)) =
      some ["Relative import path \"./\x7b\x7baliases\x7d\x7d\" detected. Use an alias import path "
          ++ "(e.g., @) instead.",
       "Unnecessary curly braces for string literal prop ''. Use plain string instead."] := by
    decide +kernel
  cases emits : emission slotFile none slotConfig.enabledRules with
  | error fault =>
    rw [emits] at gives
    cases gives
  | ok found =>
    rw [emits] at gives
    have messages := Option.some.inj gives
    have ran : run slotConfig slotFile none =
        .ok ⟨slotFile.filename, found.mergeSort Violation.isBefore, none, 0⟩ := by
      unfold run
      rw [emits]
      rfl
    have sorted := ((List.mergeSort_perm found Violation.isBefore).map (·.message)).trans
      (.of_eq messages)
    obtain ⟨stand, count⟩ := violations_standFor slotConfig slotFile none _ ran
    have length := sorted.length_eq
    rw [List.length_map] at length
    exact ⟨_, ran, sorted, stand, count.trans length⟩

end Lint

end TreeLint
