import TreeLint.Check.Basic
import TreeLint.Proofs.Files
import TreeLint.Proofs.Fixing
import TreeLint.Proofs.Loading

/-! Checks step by step. A run checks its targets one after the other, and runs follow each other on
the files that are left. A step either leaves the files alone or writes to the one source that the
target names, by the changes of what is found in it. If writing fails, the source may be left with a
beginning of the text. -/

namespace TreeLint

namespace LintResult

def changes (result : LintResult) (text : List Char) : List Fix :=
  Fixing.changes Violation.fix text result.violations

def mendedText (result : LintResult) (text : List Char) : List Char :=
  (Fixing.apply Violation.fix text result.violations).text

theorem fixableCount_ne_zero {result : LintResult} {text : List Char}
    (some : result.changes text ≠ []) : result.fixableCount ≠ 0 := by
  obtain ⟨f, member⟩ := List.exists_mem_of_ne_nil _ some
  obtain ⟨v, found, fixes⟩ := Fixing.mem_of_mem_changes member
  refine Nat.ne_of_gt (List.countP_pos_iff.mpr ⟨v, found, ?_⟩)
  rw [Violation.isFixable, fixes, Option.isSome_some]

/-- What mending a text for the violations comes to; each violation is known by its position. -/
def mending (result : LintResult) (text : List Char) : FixOutcome (Violation × Nat) :=
  Fixing.apply (fun x => x.1.fix) text result.violations.zipIdx

theorem mending_map (result : LintResult) (text : List Char) :
    (result.mending text).text = result.mendedText text ∧
      (result.mending text).applied.map (·.1) =
        (Fixing.apply Violation.fix text result.violations).applied ∧
      (result.mending text).skipped.map (·.1) =
        (Fixing.apply Violation.fix text result.violations).skipped := by
  obtain ⟨same, applied, skipped⟩ := Fixing.apply_map Violation.fix
    (fun x : Violation × Nat => x.1) text result.violations.zipIdx
  rw [List.zipIdx_map_fst] at same applied skipped
  exact ⟨same.symm, applied.symm, skipped.symm⟩

theorem changes_eq_nil_iff {result : LintResult} {text : List Char} :
    result.changes text = [] ↔ (result.mending text).applied = [] := by
  rw [← List.length_eq_zero_iff, ← List.length_eq_zero_iff, changes, Fixing.length_changes,
    ← (result.mending_map text).2.1, List.length_map]

end LintResult

namespace Check

/-- What a run is asked for. -/
structure Order where
  config : Configuration
  paths : List String
  fix : Bool
  cwd : Option String

/-- A moment of a run: the check of one target on the files as they are. -/
structure Step where
  order : Order
  target : Target
  before : FileSystem

variable [Host]

def Order.run (order : Order) (fs : FileSystem) : Outcome (List LintResult) :=
  Check.run order.config order.paths order.fix order.cwd fs

namespace Step

def outcome (step : Step) : Outcome (Option LintResult) :=
  checkTarget step.order.config step.order.fix step.order.cwd step.before step.target

def after (step : Step) : FileSystem := step.outcome.files

/-- The file of the target and what is found in it, if it can be loaded and checked. -/
def Finds (step : Step) (file : ParsedFile) (result : LintResult) : Prop :=
  ParsedFile.load step.before step.target.path = .ok file ∧
    Lint.run step.order.config file step.order.cwd = .ok result

def changes (step : Step) : List Fix :=
  match ParsedFile.load step.before step.target.path with
  | .error _ => []
  | .ok file => match Lint.run step.order.config file step.order.cwd with
    | .error _ => []
    | .ok result => if step.order.fix then result.changes file.source.text else []

/-- The document of the target, whose source is the file of a number. -/
def Names (step : Step) (document : Document) (number : Nat) : Prop :=
  Document.read step.before step.target.path = .ok document ∧
    step.before.Leads (Path.ofString document.sourcePath) number

end Step

/-- The steps of an order that check targets, up to the first failure. -/
def stepsOn (order : Order) (fs : FileSystem) : List Target → List Step
  | [] => []
  | target :: rest =>
    let step : Step := ⟨order, target, fs⟩
    match step.outcome.result with
    | .error _ => [step]
    | .ok _ => step :: stepsOn order step.after rest

def Order.steps (order : Order) (fs : FileSystem) : List Step :=
  match targets fs order.paths with
  | .error _ => []
  | .ok targets => stepsOn order fs targets

/-- The steps of orders, each of them on the files that those before it leave. -/
def history (fs : FileSystem) : List Order → List Step
  | [] => []
  | order :: rest => order.steps fs ++ history (order.run fs).files rest

/-- Steps that follow each other, from files to files. -/
inductive Chain : FileSystem → List Step → FileSystem → Prop
  | none (fs : FileSystem) : Chain fs [] fs
  | next {step : Step} {rest : List Step} {fs : FileSystem} :
      Chain step.after rest fs → Chain step.before (step :: rest) fs

namespace Chain

theorem append {fs between final : FileSystem} {first second : List Step}
    (before : Chain fs first between) (after : Chain between second final) :
    Chain fs (first ++ second) final := by
  induction before with
  | none => exact after
  | next _ ih => exact .next (ih after)

theorem stepsOn (order : Order) (fs : FileSystem) (targets : List Target) :
    Chain fs (Check.stepsOn order fs targets)
      (checkTargets order.config order.fix order.cwd fs targets).files := by
  induction targets generalizing fs with
  | nil => exact .none fs
  | cons target rest ih =>
    have moved : (⟨order, target, fs⟩ : Step).outcome =
      checkTarget order.config order.fix order.cwd fs target := by rw [Step.outcome]
    rw [Check.stepsOn, checkTargets, Step.after, moved]
    generalize checkTarget order.config order.fix order.cwd fs target = outcome at moved
    obtain ⟨files, result⟩ := outcome
    have left : (⟨order, target, fs⟩ : Step).after = files := by rw [Step.after, moved]
    cases result with
    | error failure =>
      refine @Chain.next _ ⟨order, target, fs⟩ _ _ ?_
      rw [left]
      exact .none files
    | ok found =>
      refine @Chain.next _ ⟨order, target, fs⟩ _ _ ?_
      rw [left]
      exact ih files

theorem steps (order : Order) (fs : FileSystem) :
    Chain fs (order.steps fs) (order.run fs).files := by
  unfold Order.steps Order.run Check.run
  cases targets fs order.paths with
  | error error => exact .none fs
  | ok targets => exact stepsOn order fs targets

theorem history (fs : FileSystem) (orders : List Order) :
    Chain fs (Check.history fs orders)
      (orders.foldl (fun files order => (order.run files).files) fs) := by
  induction orders generalizing fs with
  | nil => exact .none fs
  | cons order rest ih => exact (steps order fs).append (ih (order.run fs).files)

/-- What holds at the start of a chain of steps and is kept by each of them holds before and after
every step, and at the end. -/
theorem invariant {P : FileSystem → Prop} {fs final : FileSystem} {steps : List Step}
    (chain : Chain fs steps final) (first : P fs)
    (kept : ∀ step ∈ steps, P step.before → P step.after) :
    (∀ step ∈ steps, P step.before ∧ P step.after) ∧ P final := by
  induction chain with
  | none => exact ⟨List.forall_mem_nil _, first⟩
  | next _ ih =>
    obtain ⟨here, others⟩ := List.forall_mem_cons.mp kept
    obtain ⟨each, last⟩ := ih (here first) others
    exact ⟨List.forall_mem_cons.mpr ⟨⟨first, here first⟩, each⟩, last⟩

end Chain

theorem steps_of_single {order : Order} {fs : FileSystem} {target : Target}
    (given : targets fs order.paths = .ok [target]) :
    order.steps fs = [⟨order, target, fs⟩] := by
  unfold Order.steps
  rw [given]
  dsimp only
  rw [stepsOn]
  split
  · rfl
  · rw [stepsOn]

section

variable {fs : FileSystem} {file : ParsedFile} {result : LintResult}

theorem mend_of_bare (bare : file.sourcePath = none) : mend fs file result = ⟨fs, .ok result⟩ := by
  rw [mend, bare]

theorem mend_of_idle (none : (result.mending file.source.text).applied = []) :
    mend fs file result = ⟨fs, .ok result⟩ := by
  cases source : file.sourcePath with
  | none => exact mend_of_bare source
  | some path =>
    rw [mend, source]
    exact if_pos (List.isEmpty_iff.mpr none)

theorem mend_of_applied (fs : FileSystem) {path : String} (source : file.sourcePath = some path)
    (applied : (result.mending file.source.text).applied ≠ []) :
    mend fs file result =
      ⟨(fs.writeText (Path.ofString path) (result.mending file.source.text).text).files,
        match (fs.writeText (Path.ofString path) (result.mending file.source.text).text).result with
        | .error error => .error (.file error)
        | .ok () => .ok (mended result (result.mending file.source.text).text
            ((result.mending file.source.text).applied.map (·.2)))⟩ := by
  rw [mend, source]
  exact if_neg (mt List.isEmpty_iff.mp applied)

end

namespace Step

variable {step : Step} {file : ParsedFile} {result : LintResult}

theorem outcome_of_finds (finds : step.Finds file result) :
    step.outcome = if step.order.fix && result.fixableCount != 0
      then ⟨(mend step.before file result).files, (mend step.before file result).result.map some⟩
      else ⟨step.before, .ok (some result)⟩ := by
  unfold outcome checkTarget
  simp only [finds.1, finds.2]

theorem after_of_not_finds (none : ∀ file result, ¬ step.Finds file result) :
    step.after = step.before := by
  unfold after outcome checkTarget
  cases loaded : ParsedFile.load step.before step.target.path with
  | error failure =>
    dsimp only
    split <;> rfl
  | ok file =>
    dsimp only
    cases ran : Lint.run step.order.config file step.order.cwd with
    | error fault => rfl
    | ok result => exact absurd ⟨loaded, ran⟩ (none file result)

theorem changes_of_finds {file : ParsedFile} {result : LintResult}
    (finds : step.Finds file result) :
    step.changes = if step.order.fix then result.changes file.source.text else [] := by
  unfold changes
  simp only [finds.1, finds.2]

theorem changes_of_not_finds (none : ∀ file result, ¬ step.Finds file result) :
    step.changes = [] := by
  unfold changes
  cases loaded : ParsedFile.load step.before step.target.path with
  | error failure => rfl
  | ok file =>
    dsimp only
    cases ran : Lint.run step.order.config file step.order.cwd with
    | error fault => rfl
    | ok result => exact absurd ⟨loaded, ran⟩ (none file result)

/-- A step that has no changes to make in a source on disk leaves the files and the result alone. -/
theorem outcome_of_idle (finds : step.Finds file result)
    (idle : file.sourcePath = none ∨ step.changes = []) :
    step.outcome = ⟨step.before, .ok (some result)⟩ := by
  rw [outcome_of_finds finds]
  split
  next mending =>
    have same : mend step.before file result = ⟨step.before, .ok result⟩ := by
      rcases idle with bare | none
      · exact mend_of_bare bare
      · rw [changes_of_finds finds, if_pos (Bool.and_eq_true_iff.mp mending).1] at none
        exact mend_of_idle (LintResult.changes_eq_nil_iff.mp none)
    rw [same]
    rfl
  next => rfl

/-- A step that has changes to make in a source on disk writes the text with the changes made in it,
and fails only if that does. -/
theorem outcome_of_changes {path : String} (finds : step.Finds file result)
    (source : file.sourcePath = some path) (busy : step.changes ≠ []) :
    ∃ left, step.outcome =
      (let written := step.before.writeText (Path.ofString path)
        (result.mendedText file.source.text)
      ⟨written.files, match written.result with
        | .error error => .error (.file error)
        | .ok () => .ok (some left)⟩) := by
  rw [changes_of_finds finds] at busy
  have asked : step.order.fix = true := by
    by_contra unasked
    exact busy (if_neg unasked)
  rw [if_pos asked] at busy
  have mends := mend_of_applied step.before source (mt LintResult.changes_eq_nil_iff.mpr busy)
  rw [(result.mending_map file.source.text).1] at mends
  rw [outcome_of_finds finds, asked, Bool.true_and,
    if_pos (bne_iff_ne.mpr (LintResult.fixableCount_ne_zero busy)), mends]
  refine ⟨mended result (result.mendedText file.source.text)
    ((result.mending file.source.text).applied.map (·.2)), ?_⟩
  dsimp only
  congr 1
  cases (step.before.writeText (Path.ofString path)
    (result.mendedText file.source.text)).result <;> rfl

/-- A step puts bytes into the source of its target: those of the text that is mended for what is found
in it or, if writing them fails, a beginning of them. -/
structure Writes (step : Step) (number : Nat) (file : ParsedFile) (result : LintResult)
    (kept : List UInt8) : Prop where
  finds : step.Finds file result
  names : ∃ document, step.Names document number
  changes : step.changes ≠ []
  start : kept <+: Text.Utf8.encode (result.mendedText file.source.text)
  all : (∃ error, step.outcome.result = .error (.file error)) ∨
    (∃ found, step.outcome.result = .ok found) ∧
      kept = Text.Utf8.encode (result.mendedText file.source.text)
  after : step.after = step.before.put number kept

theorem writes_of_fill {path : String} {number : Nat} {document : Document}
    (finds : step.Finds file result) (source : file.sourcePath = some path)
    (busy : step.changes ≠ []) (named : step.Names document number)
    (fills : step.before.writeText (Path.ofString path) (result.mendedText file.source.text) =
      step.before.fill number (result.mendedText file.source.text)) :
    ∃ kept, step.Writes number file result kept := by
  obtain ⟨left, ends⟩ := outcome_of_changes finds source busy
  obtain ⟨kept, start, filled, all⟩ :=
    step.before.fill_cases number (result.mendedText file.source.text)
  rw [fills] at ends
  refine ⟨kept, finds, ⟨document, named⟩, busy, start, ?_,
    (congrArg Outcome.files ends).trans filled⟩
  have ending := congrArg Outcome.result ends
  dsimp only at ending
  cases went : (step.before.fill number (result.mendedText file.source.text)).result with
  | error error =>
    rw [went] at ending
    exact .inl ⟨error, ending⟩
  | ok =>
    rw [went] at ending
    exact .inr ⟨⟨_, ending⟩, all went⟩

/-- A step leaves the files as they are, or writes to the source of its target. -/
theorem after_eq_or (step : Step) : step.after = step.before ∨
    ∃ number file result kept, step.Writes number file result kept := by
  by_cases some : ∃ file result, step.Finds file result
  · obtain ⟨file, result, finds⟩ := some
    obtain ⟨document, onDisk, text, root, source, read, there, -, -, -, rfl⟩ :=
      ParsedFile.load_ok_iff.mp finds.1
    cases onDisk with
    | false => exact .inl (congrArg Outcome.files (outcome_of_idle finds (.inl rfl)))
    | true =>
      by_cases idle : step.changes = []
      · exact .inl (congrArg Outcome.files (outcome_of_idle finds (.inr idle)))
      · rcases FileSystem.writeText_of_exists there (result.mendedText source.text) with
          ⟨error, refused⟩ | ⟨number, leads, fills⟩
        · obtain ⟨left, ends⟩ := outcome_of_changes finds rfl idle
          rw [refused] at ends
          exact .inl (congrArg Outcome.files ends)
        · obtain ⟨kept, writes⟩ := writes_of_fill finds rfl idle ⟨read, leads⟩ fills
          exact .inr ⟨number, _, result, kept, writes⟩
  · exact .inl (after_of_not_finds fun file result finds => some ⟨file, result, finds⟩)

/-- Where files are and who may do what with them stays the same in a step. -/
theorem after_toLayout (step : Step) : step.after.toLayout = step.before.toLayout := by
  rcases step.after_eq_or with same | ⟨number, file, result, kept, writes⟩
  · rw [same]
  · rw [writes.after, FileSystem.put_toLayout]

/-- A step leaves every file alone that its target does not name. -/
theorem frame {number : Nat} (elsewhere : ∀ document, ¬ step.Names document number) :
    step.after.bytes number = step.before.bytes number := by
  rcases step.after_eq_or with same | ⟨other, file, result, kept, writes⟩
  · rw [same]
  · rw [writes.after, FileSystem.bytes_put, if_neg]
    rintro rfl
    obtain ⟨document, named⟩ := writes.names
    exact elsewhere document named

end Step

namespace Chain

theorem frame {number : Nat} {fs final : FileSystem} {steps : List Step}
    (chain : Chain fs steps final)
    (elsewhere : ∀ step ∈ steps, ∀ document, ¬ step.Names document number) :
    final.bytes number = fs.bytes number := by
  induction chain with
  | none => rfl
  | next _ ih =>
    obtain ⟨here, others⟩ := List.forall_mem_cons.mp elsewhere
    rw [ih others, Step.frame here]

theorem split {fs final : FileSystem} {earlier later : List Step} {step : Step}
    (chain : Chain fs (earlier ++ step :: later) final) :
    Chain fs earlier step.before ∧ Chain step.after later final := by
  induction earlier generalizing fs with
  | nil =>
    cases chain with
    | next rest => exact ⟨.none _, rest⟩
  | cons first rest ih =>
    cases chain with
    | next more =>
      obtain ⟨before, after⟩ := ih more
      exact ⟨.next before, after⟩

end Chain

end Check

end TreeLint
