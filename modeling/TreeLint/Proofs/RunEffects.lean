import TreeLint.Proofs.FixedSource

/-! What a run does to the files. A run that is not to mend leaves them alone. One that is writes to
files that are there, each of them the source of a tree for which some change is made. A run that
fails leaves the files as the targets before the failing one leave them, unless it is a write that
fails: then a beginning of what was to be written may be in the source of the failing one. -/

namespace TreeLint.Check

section

variable [Host]

/-- The check of targets, one after the other, that an order asks for. -/
def Order.check (order : Order) (fs : FileSystem) (targets : List Target) :
    Outcome (List LintResult) :=
  checkTargets order.config order.fix order.cwd fs targets

namespace Order

variable {order : Order} {fs : FileSystem} {target : Target} {failure : Failure}

theorem run_of_targets {targets : List Target}
    (given : Check.targets fs order.paths = .ok targets) :
    order.run fs = order.check fs targets := by
  unfold Order.run Check.run
  rw [given]
  rfl

theorem run_of_no_targets {error : FileError}
    (failed : Check.targets fs order.paths = .error error) :
    order.run fs = ⟨fs, .error (.file error)⟩ := by
  unfold Order.run Check.run
  rw [failed]

theorem check_cons_of_error (rest : List Target)
    (failed : (⟨order, target, fs⟩ : Step).outcome.result = .error failure) :
    order.check fs (target :: rest) = ⟨(⟨order, target, fs⟩ : Step).after, .error failure⟩ := by
  unfold check
  rw [checkTargets]
  unfold Step.outcome at failed
  simp only [failed]
  rfl

theorem check_cons_of_ok {found : Option LintResult} (rest : List Target)
    (checked : (⟨order, target, fs⟩ : Step).outcome.result = .ok found) :
    order.check fs (target :: rest) =
      ⟨(order.check (⟨order, target, fs⟩ : Step).after rest).files,
        (order.check (⟨order, target, fs⟩ : Step).after rest).result.map (found.toList ++ ·)⟩ := by
  unfold check
  rw [checkTargets]
  unfold Step.outcome at checked
  simp only [checked]
  rfl

/-- Targets give results when each of them does, one after the other. -/
theorem check_cons_ok_iff {rest : List Target} {results : List LintResult} :
    (order.check fs (target :: rest)).result = .ok results ↔ ∃ found more,
      (⟨order, target, fs⟩ : Step).outcome.result = .ok found ∧
      (order.check (⟨order, target, fs⟩ : Step).after rest).result = .ok more ∧
      results = found.toList ++ more := by
  cases here : (⟨order, target, fs⟩ : Step).outcome.result with
  | error failure => simp [check_cons_of_error rest here]
  | ok found =>
    rw [check_cons_of_ok rest here]
    cases (order.check (⟨order, target, fs⟩ : Step).after rest).result <;>
      simp [Except.map, eq_comm]

theorem check_append_of_error {earlier : List Target} (later : List Target)
    (failed : (order.check fs earlier).result = .error failure) :
    order.check fs (earlier ++ later) = order.check fs earlier := by
  induction earlier generalizing fs with
  | nil => cases failed
  | cons target rest ih =>
    cases here : (⟨order, target, fs⟩ : Step).outcome.result with
    | error other =>
      rw [List.cons_append, check_cons_of_error _ here, check_cons_of_error _ here]
    | ok found =>
      rw [check_cons_of_ok _ here] at failed
      have stopped : (order.check (⟨order, target, fs⟩ : Step).after rest).result =
          .error failure := by
        revert failed
        cases (order.check (⟨order, target, fs⟩ : Step).after rest).result with
        | error other => exact id
        | ok results => nofun
      rw [List.cons_append, check_cons_of_ok _ here, check_cons_of_ok _ here, ih stopped]

/-- Targets in two parts are checked one part after the other. -/
theorem check_append_of_ok {earlier : List Target} {results : List LintResult}
    (later : List Target) (checked : (order.check fs earlier).result = .ok results) :
    order.check fs (earlier ++ later) =
      ⟨(order.check (order.check fs earlier).files later).files,
        (order.check (order.check fs earlier).files later).result.map (results ++ ·)⟩ := by
  induction earlier generalizing fs results with
  | nil =>
    cases checked
    rw [List.nil_append, show (order.check fs []).files = fs from rfl]
    obtain ⟨files, result⟩ := order.check fs later
    cases result <;> rfl
  | cons target rest ih =>
    obtain ⟨found, more, here, others, rfl⟩ := check_cons_ok_iff.mp checked
    rw [List.cons_append, check_cons_of_ok _ here, check_cons_of_ok _ here, ih others]
    dsimp only
    generalize (order.check (order.check (⟨order, target, fs⟩ : Step).after rest).files
      later).result = last
    cases last with
    | error other => rfl
    | ok results => simp only [Except.map, List.append_assoc]

/-- Targets are checked up to the first one that fails. -/
theorem check_stopped {targets : List Target}
    (failed : (order.check fs targets).result = .error failure) :
    ∃ earlier target later results, targets = earlier ++ target :: later ∧
      (order.check fs earlier).result = .ok results ∧
      (⟨order, target, (order.check fs earlier).files⟩ : Step).outcome.result = .error failure ∧
      (order.check fs targets).files =
        (⟨order, target, (order.check fs earlier).files⟩ : Step).after := by
  induction targets generalizing fs with
  | nil => cases failed
  | cons target rest ih =>
    cases here : (⟨order, target, fs⟩ : Step).outcome.result with
    | error other =>
      rw [check_cons_of_error _ here] at failed ⊢
      cases failed
      exact ⟨[], target, rest, [], rfl, rfl, here, rfl⟩
    | ok found =>
      rw [check_cons_of_ok _ here] at failed
      cases others : (order.check (⟨order, target, fs⟩ : Step).after rest).result with
      | ok more =>
        rw [others] at failed
        cases failed
      | error other =>
        rw [others] at failed
        cases failed
        obtain ⟨earlier, last, later, results, split, checked, stops, left⟩ := ih others
        refine ⟨target :: earlier, last, later, found.toList ++ results, ?_, ?_, ?_, ?_⟩
        · rw [split, List.cons_append]
        · rw [check_cons_of_ok _ here, checked]
          rfl
        · rw [check_cons_of_ok _ here]
          exact stops
        · rw [check_cons_of_ok _ here, check_cons_of_ok _ here]
          exact left

theorem order_of_mem_stepsOn {targets : List Target} {step : Step}
    (member : step ∈ stepsOn order fs targets) : step.order = order := by
  induction targets generalizing fs with
  | nil => cases member
  | cons target rest ih =>
    rw [stepsOn] at member
    split at member
    · rw [List.mem_singleton.mp member]
    · rcases List.mem_cons.mp member with rfl | later
      · rfl
      · exact ih later

theorem order_of_mem_steps {step : Step} (member : step ∈ order.steps fs) : step.order = order := by
  unfold Order.steps at member
  split at member
  · cases member
  · exact order_of_mem_stepsOn member

end Order

namespace Step

variable {step : Step}

theorem changes_of_not_fix (unasked : step.order.fix = false) : step.changes = [] := by
  unfold changes
  simp [unasked]
  split
  · rfl
  · split <;> rfl

/-- A step that is not to mend leaves the files as they are. -/
theorem after_of_not_fix (unasked : step.order.fix = false) : step.after = step.before := by
  rcases step.after_eq_or with same | ⟨_, _, _, _, writes⟩
  · exact same
  · exact absurd (changes_of_not_fix unasked) writes.changes

/-- A step writes to what is another file after it. -/
theorem writes_of_ne {number : Nat} (differs : step.after.bytes number ≠ step.before.bytes number) :
    ∃ file result kept, step.Writes number file result kept := by
  rcases step.after_eq_or with same | ⟨other, file, result, kept, writes⟩
  · exact absurd (by rw [same]) differs
  · rw [writes.after, FileSystem.bytes_put] at differs
    obtain rfl : other = number := by
      by_contra elsewhere
      exact differs (if_neg elsewhere)
    exact ⟨file, result, kept, writes⟩

end Step

/-- What is seen to be different after a chain of steps is different after one of them. -/
theorem Chain.exists_of_ne {α : Type} (view : FileSystem → α) {fs final : FileSystem}
    {steps : List Step} (chain : Chain fs steps final) (differs : view final ≠ view fs) :
    ∃ step ∈ steps, view step.after ≠ view step.before := by
  induction chain with
  | none => exact absurd rfl differs
  | @next step _ _ _ ih =>
    by_cases here : view step.after = view step.before
    · obtain ⟨other, member, changed⟩ := ih (here ▸ differs)
      exact ⟨other, .tail _ member, changed⟩
    · exact ⟨step, List.mem_cons_self, here⟩

/-- What a run may do. It leaves the files alone unless it is to mend them, it makes and removes
none, what it writes is the source of a tree for which it makes a change, and if it fails, it has
done what it does for the targets before the first one that fails. Only if it was a write that failed,
there may be a beginning of what was to be written in the source of that target. -/
theorem run_effect (order : Order) (fs : FileSystem) :
    (order.fix = false → (order.run fs).files = fs) ∧
    (order.run fs).files.toLayout = fs.toLayout ∧
    (∀ number, (order.run fs).files.bytes number ≠ fs.bytes number →
      ∃ step ∈ order.steps fs, ∃ file result kept, step.Writes number file result kept) ∧
    (∀ failure, (order.run fs).result = .error failure →
      (∃ error, targets fs order.paths = .error error ∧ (order.run fs).files = fs) ∨
      ∃ earlier target later results,
        targets fs order.paths = .ok (earlier ++ target :: later) ∧
        (order.check fs earlier).result = .ok results ∧
        (⟨order, target, (order.check fs earlier).files⟩ : Step).outcome.result =
          .error failure ∧
        ((order.run fs).files = (order.check fs earlier).files ∨
          ∃ error number file result kept, failure = .file error ∧
            (⟨order, target, (order.check fs earlier).files⟩ : Step).Writes number file result kept ∧
            (order.run fs).files = (order.check fs earlier).files.put number kept)) := by
  have chain := Chain.steps order fs
  refine ⟨fun unasked => ?_, ?_, fun number differs => ?_, fun failure failed => ?_⟩
  · refine (chain.invariant (P := (· = fs)) rfl fun step member same => ?_).2
    have asked := Order.order_of_mem_steps member
    exact (Step.after_of_not_fix (asked ▸ unasked)).trans same
  · exact (chain.invariant (P := (·.toLayout = fs.toLayout)) rfl fun step _ same =>
      step.after_toLayout.trans same).2
  · obtain ⟨step, member, changed⟩ := chain.exists_of_ne (·.bytes number) differs
    exact ⟨step, member, Step.writes_of_ne changed⟩
  · cases given : targets fs order.paths with
    | error error => exact .inl ⟨error, rfl, by rw [Order.run_of_no_targets given]⟩
    | ok targets =>
      rw [Order.run_of_targets given] at failed ⊢
      obtain ⟨earlier, target, later, results, split, checked, stops, left⟩ :=
        Order.check_stopped failed
      refine .inr ⟨earlier, target, later, results, by rw [split], checked, stops, ?_⟩
      rcases Step.after_eq_or ⟨order, target, (order.check fs earlier).files⟩ with
        same | ⟨number, file, result, kept, writes⟩
      · exact .inl (left.trans same)
      · rcases writes.all with ⟨error, told⟩ | ⟨⟨found, passes⟩, -⟩
        · obtain rfl := Except.error.inj (stops.symm.trans told)
          exact .inr ⟨error, number, file, result, kept, rfl, writes, left.trans writes.after⟩
        · cases stops.symm.trans passes

end

attribute [local instance] Host.usual

/-- The tree of a source with braces that it does not need, around half of a surrogate pair. -/
def halfFiles : FileSystem :=
  let tree := "\x7b\"type\":\"Program\",\"body\":[\x7b\"type\":".toList ++
    "\"JSXAttribute\",\"value\":\x7b\"type\":".toList ++
    "\"JSXExpressionContainer\",\"range\":[6,11],".toList ++
    "\"expression\":\x7b\"type\":\"Literal\",".toList ++
    "\"value\":\"x\",\"raw\":\"'\x5cud800'\"\x7d\x7d\x7d]\x7d".toList
  { curlyFiles curlySource with
    contents := [(0, Text.Utf8.encode curlySource.toList), (1, Text.Utf8.encode tree)] }

/-- A run that fails need not leave the files as the targets before the failing one do: a source is
emptied before it turns out that there are no bytes for the text. -/
theorem run_not_undone :
    ¬ ∀ (order : Order) (fs : FileSystem) (failure : Failure),
      (order.run fs).result = .error failure →
      (∃ error, targets fs order.paths = .error error ∧ (order.run fs).files = fs) ∨
      ∃ earlier target later results,
        targets fs order.paths = .ok (earlier ++ target :: later) ∧
        (order.check fs earlier).result = .ok results ∧
        (⟨order, target, (order.check fs earlier).files⟩ : Step).outcome.result =
          .error failure ∧
        (order.run fs).files = (order.check fs earlier).files := by
  intro claim
  have given : targets halfFiles (curlyOrder ["a.tsx.json"]).paths =
      .ok [⟨"a.tsx.json", false⟩] := by
    decide +kernel
  have ends : ((curlyOrder ["a.tsx.json"]).run halfFiles).result.toOption.isSome = false ∧
      ((curlyOrder ["a.tsx.json"]).run halfFiles).files.bytes 0 ≠ halfFiles.bytes 0 := by
    decide +kernel
  obtain ⟨failed, emptied⟩ := ends
  cases stopped : ((curlyOrder ["a.tsx.json"]).run halfFiles).result with
  | ok results =>
    rw [stopped] at failed
    cases failed
  | error failure =>
    rcases claim _ _ failure stopped with ⟨error, none, -⟩ | ⟨earlier, target, later, results,
      split, -, -, same⟩
    · cases given.symm.trans none
    · have one := Except.ok.inj (given.symm.trans split)
      cases earlier with
      | nil => exact emptied (by rw [same]; rfl)
      | cons first rest => simp at one

/-- A source that is mended stays mended when the next file is missing. -/
example :
    let outcome := (curlyOrder ["a.tsx.json", "c.json"]).run (curlyFiles curlySource)
    outcome.files.bytes 0 = Text.Utf8.encode "<I \nn='x'/>".toList ∧
      outcome.result.toOption = none := by
  decide +kernel

end TreeLint.Check
