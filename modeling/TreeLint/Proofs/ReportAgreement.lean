import TreeLint.Command.Basic
import TreeLint.Proofs.ReportedViolations
import TreeLint.Proofs.RunEffects

/-! What a check tells. The exit code, the report for people and the report for tools are made from
the same results apart from each other, and they agree: the totals at the end of the one are the
sums of the counts in the other, and the rows are the violations that are listed. They do because
every violation in a result weighs something, also after some of them were mended. -/

namespace TreeLint

/-- A result that both reports can show: its file has a name, and its violations weigh something. -/
structure LintResult.Reportable (result : LintResult) : Prop where
  named : ∃ name, result.filename = some name
  weigh : ∀ v ∈ result.violations, v.severity ≠ .off

section

variable [Host]

namespace Lint

end Lint

namespace Check

namespace Step

variable {step : Step}

end Step

namespace Order

end Order

end Check

end

namespace Report

def countAt (key : String) (object : Value) : Nat :=
  match object.member? key with
  | some (.int n) => n.toNat
  | _ => 0

def listed (object : Value) : List Value :=
  match object.member? "violations" with
  | some (.list items) => items
  | _ => []

def isOf (severity : Severity) (item : Value) : Bool :=
  (item.member? "severity").bind Value.string? == some severity.name

/-- An object in the report for tools tells of a result: it lists the violations in their order, and
its counts are those of what it lists. -/
structure Tells (object : Value) (result : LintResult) : Prop where
  file : object.member? "file" = some (.ofString? result.filename)
  violations : object.member? "violations" = some (.list (result.violations.map Violation.toValue))
  errors : object.member? "error_count" = some (.int ((listed object).countP (isOf .error)))
  warnings : object.member? "warning_count" = some (.int ((listed object).countP (isOf .warn)))
  applied : object.member? "applied_fixes" = some (.int result.appliedFixes)

@[simp] theorem listed_toValue (result : LintResult) :
    listed result.toValue = result.violations.map Violation.toValue := rfl

@[simp] theorem isOf_toValue (severity : Severity) (v : Violation) :
    isOf severity v.toValue = (v.severity == severity) := by
  have held : (v.toValue.member? "severity").bind Value.string? = some v.severity.name := rfl
  rw [isOf, held]
  cases v.severity <;> cases severity <;> rfl

theorem countP_isOf (severity : Severity) (result : LintResult) :
    (listed result.toValue).countP (isOf severity) = result.count severity := by
  rw [listed_toValue, List.countP_map]
  exact List.countP_congr fun v _ => by simp

/-- The numbers in an object are those of the result of which it tells. -/
theorem Tells.counts {object : Value} {result : LintResult} (tells : Tells object result) :
    (listed object).length = result.violations.length ∧
    countAt "error_count" object = result.count .error ∧
    countAt "warning_count" object = result.count .warn ∧
    countAt "applied_fixes" object = result.appliedFixes := by
  have lists : listed object = result.violations.map Violation.toValue := by
    simp [listed, tells.violations]
  have counts (severity : Severity) :
      (listed object).countP (isOf severity) = result.count severity := by
    rw [lists, ← listed_toValue, countP_isOf]
  refine ⟨by rw [lists, List.length_map], ?_, ?_, ?_⟩
  · simp only [countAt, tells.errors, counts, Int.toNat_natCast]
  · simp only [countAt, tells.warnings, counts, Int.toNat_natCast]
  · simp only [countAt, tells.applied, Int.toNat_natCast]

theorem countAt_toValue (result : LintResult) :
    countAt "error_count" result.toValue = result.errorCount ∧
    countAt "warning_count" result.toValue = result.warningCount ∧
    countAt "applied_fixes" result.toValue = result.appliedFixes :=
  ⟨rfl, rfl, rfl⟩

def Output.rows : Output → List (List Cell)
  | .line _ _ => []
  | .table _ _ rows => rows

def RowFor (v : Violation) (cells : List Cell) : Prop :=
  cells.map (·.text) =
    [v.line.written ++ ":" ++ v.column.written, v.severity.name, v.ruleId, visible v.message]

/-- A table shows a result: the name of its file, and a row for each violation, in their order. -/
def TableFor (result : LintResult) (output : Output) : Prop :=
  ∃ title columns rows, output = .table title columns rows ∧
    result.filename.map visible = some title.text ∧ List.Forall₂ RowFor result.violations rows

def Says (console : List Output) (text : String) : Prop := ∃ styles, .line text styles ∈ console

/-- The line for a run in which nothing is wrong. -/
def cleanText : String := "✅ No problems found."

def problemsText (problems errors warnings : Nat) : String :=
  "✖ " ++ toString problems ++ " problem(s) (" ++ toString errors ++ " error(s), "
    ++ toString warnings ++ " warning(s))"

def hintText (fixable : Nat) : String :=
  "  " ++ toString fixable ++ " problem(s) fixable with the \x60--fix\x60 option."

def appliedText (applied : Nat) : String := "Applied " ++ toString applied ++ " fix(es)."

/-- A console shows results of which objects tell. There is one table for each result with
violations, and then lines only; and what these say is what the counts of the objects add up to. -/
structure Shows (console : List Output) (results : List LintResult) (objects : List Value) :
    Prop where
  tables : ∃ tables lines, console = tables ++ lines ∧
    List.Forall₂ TableFor (results.filter fun result => !result.violations.isEmpty) tables ∧
    ∀ output ∈ lines, ∃ text styles, output = .line text styles
  clean : Says console cleanText ↔ ∀ output ∈ console, output.rows = []
  problems : ∀ problems errors warnings, Says console (problemsText problems errors warnings) ↔
    (∃ output ∈ console, output.rows ≠ []) ∧
    problems = sumOver (fun object => (listed object).length) objects ∧
    errors = sumOver (countAt "error_count") objects ∧
    warnings = sumOver (countAt "warning_count") objects
  applied : ∀ n, Says console (appliedText n) ↔
    0 < n ∧ n = sumOver (countAt "applied_fixes") objects

theorem digits_append_inj {m n : Nat} {xs ys : List Char}
    (stopsX : ∀ c ∈ xs.head?, c.isDigit = false) (stopsY : ∀ c ∈ ys.head?, c.isDigit = false)
    (same : Nat.toDigits 10 m ++ xs = Nat.toDigits 10 n ++ ys) : m = n ∧ xs = ys := by
  -- what follows starts with no digit, so the digits in front can be read off
  have front {k : Nat} {zs : List Char} (stops : ∀ c ∈ zs.head?, c.isDigit = false) :
      (Nat.toDigits 10 k ++ zs).takeWhile Char.isDigit = Nat.toDigits 10 k := by
    rw [List.takeWhile_append_of_pos fun c member =>
      Nat.isDigit_of_mem_toDigits (by decide) (by decide) member]
    cases zs with
    | nil => simp
    | cons c rest => simp [stops c rfl]
  have digits : Nat.toDigits 10 m = Nat.toDigits 10 n := by
    rw [← front stopsX, same, front stopsY]
  rw [digits] at same
  have value := congrArg (Nat.ofDigitChars 10 · 0) digits
  simp only [Nat.ofDigitChars_toDigits (show 1 < 10 by decide) (show 10 ≤ 10 by decide)] at value
  exact ⟨value, List.append_cancel_left same⟩

theorem appliedText_inj {m n : Nat} : appliedText m = appliedText n ↔ m = n := by
  refine ⟨fun same => ?_, congrArg _⟩
  have chars := congrArg String.toList same
  simp only [appliedText, String.toList_append, Nat.toString_eq_repr, Nat.toList_repr,
    List.append_assoc, List.append_cancel_left_eq] at chars
  exact (digits_append_inj (by simp) (by simp) chars).1

theorem problemsText_inj {p e w p' e' w' : Nat} :
    problemsText p e w = problemsText p' e' w' ↔ p = p' ∧ e = e' ∧ w = w' := by
  refine ⟨fun same => ?_, fun ⟨hp, he, hw⟩ => by rw [hp, he, hw]⟩
  have chars := congrArg String.toList same
  simp only [problemsText, String.toList_append, Nat.toString_eq_repr, Nat.toList_repr,
    List.append_assoc, List.append_cancel_left_eq] at chars
  obtain ⟨problems, chars⟩ := digits_append_inj (by simp) (by simp) chars
  obtain ⟨errors, chars⟩ := digits_append_inj (by simp) (by simp) (List.append_cancel_left chars)
  obtain ⟨warnings, -⟩ := digits_append_inj (by simp) (by simp) (List.append_cancel_left chars)
  exact ⟨problems, errors, warnings⟩

/-- The lines tell themselves apart by their first characters. -/
theorem texts_differ (p e w n k : Nat) :
    cleanText ≠ problemsText p e w ∧ cleanText ≠ hintText n ∧ cleanText ≠ appliedText k ∧
    problemsText p e w ≠ hintText n ∧ problemsText p e w ≠ appliedText k ∧
    hintText n ≠ appliedText k := by
  have apart {a b : String} (differ : a.toList.head? ≠ b.toList.head?) : a ≠ b :=
    fun same => differ (by rw [same])
  refine ⟨?_, ?_, ?_, ?_, ?_, ?_⟩ <;>
    exact apart (by simp [cleanText, problemsText, hintText, appliedText, String.toList_append])

theorem says_append (xs ys : List Output) (text : String) :
    Says (xs ++ ys) text ↔ Says xs text ∨ Says ys text := by
  simp only [Says, List.mem_append, exists_or]

def problemCount (results : List LintResult) : Nat :=
  sumOver LintResult.errorCount results + sumOver LintResult.warningCount results

variable {results : List LintResult} {text : String}

theorem says_appliedLine : Says (appliedLine results) text ↔
    0 < sumOver LintResult.appliedFixes results ∧
      text = appliedText (sumOver LintResult.appliedFixes results) := by
  simp only [appliedLine]
  split <;> simp_all [Says, appliedText, Nat.pos_iff_ne_zero]

theorem says_summary : Says (summary results) text ↔
    (problemCount results = 0 ∧ text = cleanText) ∨
    (problemCount results ≠ 0 ∧
      (text = problemsText (problemCount results) (sumOver LintResult.errorCount results)
        (sumOver LintResult.warningCount results) ∨
      sumOver LintResult.fixableCount results ≠ 0 ∧
        text = hintText (sumOver LintResult.fixableCount results))) := by
  simp only [summary]
  rw [← problemCount]
  by_cases none : problemCount results = 0
  · simp [Says, none, cleanText]
  · by_cases bare : sumOver LintResult.fixableCount results = 0 <;>
      simp [Says, none, bare, problemsText, hintText, exists_or]

/-- What the lines after the tables say. -/
theorem says_lines (results : List LintResult) :
    (Says (appliedLine results ++ summary results) cleanText ↔ problemCount results = 0) ∧
    (∀ p e w, Says (appliedLine results ++ summary results) (problemsText p e w) ↔
      problemCount results ≠ 0 ∧ p = problemCount results ∧
      e = sumOver LintResult.errorCount results ∧ w = sumOver LintResult.warningCount results) ∧
    (∀ n, Says (appliedLine results ++ summary results) (appliedText n) ↔
      0 < sumOver LintResult.appliedFixes results ∧
      n = sumOver LintResult.appliedFixes results) := by
  simp only [says_append, says_appliedLine, says_summary]
  generalize sumOver LintResult.errorCount results = errors
  generalize sumOver LintResult.warningCount results = warnings
  generalize sumOver LintResult.fixableCount results = fixable
  generalize sumOver LintResult.appliedFixes results = applied
  refine ⟨?_, fun p e w => ?_, fun n => ?_⟩
  · obtain ⟨problems, hint, changes, -⟩ :=
      texts_differ (problemCount results) errors warnings fixable applied
    simp [problems, hint, changes]
  · obtain ⟨clean, -, -, hint, changes, -⟩ := texts_differ p e w fixable applied
    simp [clean.symm, hint, changes, problemsText_inj]
  · obtain ⟨-, -, clean, -, problems, hint⟩ :=
      texts_differ (problemCount results) errors warnings fixable n
    simp [clean.symm, problems.symm, hint.symm, appliedText_inj]

/-- Where every violation weighs something, errors and warnings are all there is. -/
theorem problemCount_eq (sound : ∀ result ∈ results, result.Reportable) :
    problemCount results = sumOver (fun result => result.violations.length) results := by
  induction results with
  | nil => rfl
  | cons result rest ih =>
    obtain ⟨here, others⟩ := List.forall_mem_cons.mp sound
    have count := LintResult.errorCount_add_warningCount here.weigh
    have counts := ih others
    simp only [problemCount, sumOver] at counts ⊢
    omega

theorem sum_violations_eq_zero_iff :
    sumOver (fun result : LintResult => result.violations.length) results = 0 ↔
      (results.filter fun result => !result.violations.isEmpty) = [] := by
  induction results with
  | nil => simp [sumOver]
  | cons result rest ih =>
    cases held : result.violations <;> simp [sumOver, held, ih]

theorem rowFor_row (v : Violation) : RowFor v (row v) := rfl

theorem table_ok {result : LintResult} (sound : result.Reportable) :
    ∃ output, table result = .ok output ∧ TableFor result output := by
  obtain ⟨name, named⟩ := sound.named
  refine ⟨_, by rw [table, named], _, _, _, rfl, by rw [named]; rfl, ?_⟩
  rw [List.forall₂_map_right_iff]
  exact List.forall₂_same.mpr fun v _ => rowFor_row v

theorem tables_ok (sound : ∀ result ∈ results, result.Reportable) :
    ∃ tables, results.mapM table = .ok tables ∧ List.Forall₂ TableFor results tables := by
  induction results with
  | nil => exact ⟨[], rfl, .nil⟩
  | cons result rest ih =>
    obtain ⟨here, others⟩ := List.forall_mem_cons.mp sound
    obtain ⟨output, made, shows⟩ := table_ok here
    obtain ⟨tables, all, each⟩ := ih others
    refine ⟨output :: tables, ?_, .cons shows each⟩
    rw [List.mapM_cons, made, all]
    rfl

/-- Where every result has violations, its table has rows. -/
theorem rows_ne_nil {tables : List Output} (busy : ∀ result ∈ results, result.violations ≠ [])
    (each : List.Forall₂ TableFor results tables) : ∀ output ∈ tables, output.rows ≠ [] := by
  intro output member
  obtain ⟨result, among, title, columns, rows, rfl, -, shown⟩ := exists_of_forall₂ each member
  rintro (rfl : rows = [])
  exact busy result among (List.forall₂_nil_right_iff.mp shown)

theorem not_says_tables {tables : List Output} (each : List.Forall₂ TableFor results tables) :
    ¬ Says tables text := by
  rintro ⟨styles, member⟩
  obtain ⟨_, -, _, _, _, isTable, -⟩ := exists_of_forall₂ each member
  cases isTable

theorem lines_of_summary (results : List LintResult) :
    ∀ output ∈ appliedLine results ++ summary results,
      ∃ text styles, output = .line text styles := by
  simp only [appliedLine, summary]
  grind

/-- A terminal shows a row just when there is some violation. -/
theorem exists_row_iff {tables lines : List Output}
    (each : List.Forall₂ TableFor (results.filter fun result => !result.violations.isEmpty) tables)
    (plain : ∀ output ∈ lines, ∃ text styles, output = .line text styles) :
    (∃ output ∈ tables ++ lines, output.rows ≠ []) ↔
      sumOver (fun result : LintResult => result.violations.length) results ≠ 0 := by
  rw [ne_eq, sum_violations_eq_zero_iff]
  constructor
  · rintro ⟨output, member, some⟩ none
    rw [none, List.forall₂_nil_left_iff] at each
    rw [each, List.nil_append] at member
    obtain ⟨text, styles, rfl⟩ := plain output member
    exact some rfl
  · intro busy
    obtain ⟨result, among⟩ := List.exists_mem_of_ne_nil _ busy
    obtain ⟨output, member, -⟩ := exists_of_forall₂ each.flip among
    refine ⟨output, List.mem_append_left _ member, rows_ne_nil (fun _ kept => ?_) each _ member⟩
    simpa using List.of_mem_filter kept

/-- The report on a terminal shows the results of which the report for tools tells. -/
theorem terminal_shows (sound : ∀ result ∈ results, result.Reportable) :
    ∃ console, terminal results = .ok console ∧
      Shows console results (results.map LintResult.toValue) := by
  obtain ⟨tables, made, each⟩ := @tables_ok (results.filter (!·.violations.isEmpty))
    fun result member => sound result (List.mem_of_mem_filter member)
  refine ⟨tables ++ (appliedLine results ++ summary results), ?_, ?_⟩
  · rw [terminal, made]
    exact congrArg _ (List.append_assoc ..)
  -- problems are counted as errors and warnings, while rows are made for all violations
  have rows := exists_row_iff each (lines_of_summary results)
  have total := problemCount_eq sound
  obtain ⟨clean, problems, applied⟩ := says_lines results
  have said (text : String) : Says (tables ++ (appliedLine results ++ summary results)) text ↔
      Says (appliedLine results ++ summary results) text := by
    rw [says_append, or_iff_right (not_says_tables each)]
  refine ⟨⟨tables, _, rfl, each, lines_of_summary results⟩, ?_, fun p e w => ?_, fun n => ?_⟩
  · rw [said, clean, total]
    simpa using (not_congr rows).symm
  · rw [said, problems, rows, total, sumOver_map, sumOver_map, sumOver_map]
    simp [countAt_toValue]
  · rw [said, applied, sumOver_map]
    exact and_congr_left fun (same : n = _) => by rw [same]

end Report

namespace Command

open Report

section

variable [Host]

/-- Both reports of results are made, and the exit code tells of errors. -/
theorem report_ok {results : List LintResult} (format : Format)
    (sound : ∀ result ∈ results, result.Reportable) :
    ∃ response, format.report results = .ok response ∧
      response.exitCode = (if results.any LintResult.hasErrors then 1 else 0) ∧
      (format = .json → response.stdout =
        Json.indented (.list (results.map LintResult.toValue)) ++ "\n" ∧ response.console = []) ∧
      (format = .terminal → response.stdout = "" ∧
        Shows response.console results (results.map LintResult.toValue)) := by
  cases format with
  | json => exact ⟨_, rfl, rfl, fun _ => ⟨rfl, rfl⟩, nofun⟩
  | terminal =>
    obtain ⟨console, made, shows⟩ := terminal_shows sound
    refine ⟨_, by rw [Format.report, made]; rfl, rfl, nofun, fun _ => ⟨rfl, shows⟩⟩

end

end Command

end TreeLint
