import TreeLint.Proofs.Failing
import TreeLint.Proofs.RunEffects
import TreeLint.Proofs.StaleChanges
import TreeLint.Proofs.Targets

/-! Files that are named though they are no serialized trees. A run fails that meets one, unless a
directory with the file in it is named before it: then the file is passed over as if it were not
there. -/

namespace TreeLint

section

variable [Host]

namespace ParsedFile

variable {fs : FileSystem} {path : String} {failure : Failure}

/-- What was never meant to be a tree is so by its document alone. -/
theorem load_foreign_iff (foreign : failure.isForeign = true) :
    load fs path = .error failure ↔ Document.read fs path = .error failure := by
  unfold load
  rw [bind_error_iff]
  refine ⟨?_, .inl⟩
  rintro (read | ⟨document, -, failed⟩)
  · exact read
  · have later : FailsOnly (fun other : Failure => other.isForeign = false)
        (Except.error failure : Except Failure ParsedFile) := by
      rw [← failed]
      simp only [failsOnly_bind, failsOnly_mapError]
      refine ⟨fun _ _ => rfl, fun onDisk _ => ⟨?_, fun _ _ => ⟨fun _ _ => rfl,
        fun _ _ => ⟨fun _ _ => rfl, fun _ _ => failsOnly_ok _⟩⟩⟩⟩
      unfold Document.sourceText
      split
      · exact failsOnly_ok _
      · split
        · split
          · exact failsOnly_ok _
          · exact failsOnly_error rfl
        · exact failsOnly_ok _
    rw [later failure rfl] at foreign
    cases foreign

theorem load_foreign_congr {one two : FileSystem} (foreign : failure.isForeign = true)
    (same : one.readBytes (Path.ofString path) = two.readBytes (Path.ofString path)) :
    load one path = .error failure ↔ load two path = .error failure := by
  rw [load_foreign_iff foreign, load_foreign_iff foreign, Document.read_congr same]

end ParsedFile

namespace Check

theorem Step.outcome_of_foreign {step : Step} {failure : Failure}
    (failed : ParsedFile.load step.before step.target.path = .error failure)
    (foreign : failure.isForeign = true) :
    step.outcome = ⟨step.before, if step.target.found then .ok none else .error failure⟩ := by
  unfold Step.outcome checkTarget
  simp only [failed, foreign, Bool.and_true]
  cases step.target.found <;> rfl

/-- The run comes to a target if those before it do not fail. -/
theorem mem_stepsOn {order : Order} {fs : FileSystem} {earlier : List Target}
    {results : List LintResult} (checked : (order.check fs earlier).result = .ok results)
    (target : Target) (later : List Target) :
    ⟨order, target, (order.check fs earlier).files⟩ ∈
      stepsOn order fs (earlier ++ target :: later) := by
  induction earlier generalizing fs results with
  | nil =>
    rw [List.nil_append, stepsOn]
    split <;> exact List.mem_cons_self
  | cons first rest ih =>
    obtain ⟨found, more, here, others, -⟩ := Order.check_cons_ok_iff.mp checked
    rw [Order.check_cons_of_ok _ here, List.cons_append, stepsOn]
    simp only [here]
    exact .tail _ (ih others)

namespace Order

variable {order : Order} {fs : FileSystem} {path : String}

/-- Whenever the run loads the file at a path, this is no serialized tree. -/
def MeetsForeign (order : Order) (fs : FileSystem) (path : String) : Prop :=
  ∀ step ∈ order.steps fs, step.target.path = path →
    ∃ failure, ParsedFile.load step.before path = .error failure ∧ failure.isForeign = true

/-- What is no serialized tree at first is none later, unless the run rewrites it. -/
theorem meetsForeign_of_load {failure : Failure}
    (failed : ParsedFile.load fs path = .error failure) (foreign : failure.isForeign = true)
    (untouched : ∀ step ∈ order.steps fs,
      step.after.readBytes (Path.ofString path) = step.before.readBytes (Path.ofString path)) :
    order.MeetsForeign fs path := by
  have same := ((Chain.steps order fs).invariant
    (P := fun files => files.readBytes (Path.ofString path) = fs.readBytes (Path.ofString path))
    rfl fun step member before => (untouched step member).trans before).1
  exact fun step member _ =>
    ⟨failure, (ParsedFile.load_foreign_congr foreign (same step member).1).mpr failed, foreign⟩

/-- A target whose file is no serialized tree stops the run, or is passed over. -/
theorem check_foreign {earlier later : List Target} {results : List LintResult} {found : Bool}
    (given : targets fs order.paths = .ok (earlier ++ ⟨path, found⟩ :: later))
    (foreign : order.MeetsForeign fs path)
    (checked : (order.check fs earlier).result = .ok results) :
    (found = false → ∃ failure, (order.run fs).result = .error failure) ∧
      (found = true → order.run fs = order.check fs (earlier ++ later)) := by
  have reached := mem_stepsOn checked ⟨path, found⟩ later
  have steps : order.steps fs = stepsOn order fs (earlier ++ ⟨path, found⟩ :: later) := by
    unfold Order.steps
    rw [given]
  obtain ⟨failure, failed, never⟩ := foreign _ (steps ▸ reached) rfl
  have outcome : (⟨order, ⟨path, found⟩, (order.check fs earlier).files⟩ : Step).outcome =
      ⟨(order.check fs earlier).files, if found then .ok none else .error failure⟩ :=
    Step.outcome_of_foreign failed never
  rw [run_of_targets given, check_append_of_ok _ checked]
  constructor
  · rintro rfl
    rw [check_cons_of_error later (congrArg Outcome.result outcome)]
    exact ⟨failure, rfl⟩
  · rintro rfl
    have after : (⟨order, ⟨path, true⟩, (order.check fs earlier).files⟩ : Step).after =
        (order.check fs earlier).files := congrArg Outcome.files outcome
    rw [check_cons_of_ok later (congrArg Outcome.result outcome), after,
      check_append_of_ok later checked]
    dsimp only [Option.toList]
    generalize (order.check (order.check fs earlier).files later).result = rest
    cases rest <;> rfl

end Order

/-- A file that is named though it is no serialized tree stops the run, unless a directory with
it comes before: then the run is the one over the other files. -/
theorem named_outcome (order : Order) (fs : FileSystem) (path : String)
    (named : path ∈ order.paths) (plain : fs.isDirectory (Path.ofString path) = .ok false)
    (foreign : order.MeetsForeign fs path) :
    (¬ FoundBefore fs order.paths path → ∃ failure, (order.run fs).result = .error failure) ∧
      (FoundBefore fs order.paths path → ∀ ts, targets fs order.paths = .ok ts →
        order.run fs = order.check fs (ts.filter (·.path != path))) := by
  cases given : targets fs order.paths with
  | error error =>
    refine ⟨fun _ => ⟨.file error, by rw [Order.run_of_no_targets given]⟩, fun _ _ => nofun⟩
  | ok ts =>
    obtain ⟨found, first, iff⟩ := find?_targets given named plain
    obtain ⟨-, earlier, later, rfl, before⟩ := List.find?_eq_some_iff_append.mp first
    have distinct := nodup_targets given
    rw [List.map_append, List.map_cons, List.nodup_append, List.nodup_cons] at distinct
    obtain ⟨-, ⟨after, -⟩, -⟩ := distinct
    have others : (earlier ++ ⟨path, found⟩ :: later).filter (·.path != path) =
        earlier ++ later := by
      rw [List.filter_append, List.filter_cons, bne_self_eq_false, if_neg Bool.false_ne_true,
        List.filter_eq_self.mpr, List.filter_eq_self.mpr]
      · exact fun target member => bne_iff_ne.mpr fun same =>
          after (List.mem_map.mpr ⟨target, member, same⟩)
      · exact fun target member => by simpa using before target member
    cases checked : (order.check fs earlier).result with
    | error failure =>
      have stopped := Order.check_append_of_error (⟨path, found⟩ :: later) checked
      refine ⟨fun _ => ⟨failure, by rw [Order.run_of_targets given, stopped, checked]⟩, ?_⟩
      rintro - _ ⟨⟩
      rw [Order.run_of_targets given, others, stopped, Order.check_append_of_error later checked]
    | ok results =>
      obtain ⟨stops, skips⟩ := Order.check_foreign given foreign checked
      refine ⟨fun none => stops ?_, ?_⟩
      · rwa [← iff, Bool.not_eq_true] at none
      · rintro some _ ⟨⟩
        rw [others]
        exact skips (iff.mpr some)

end Check

end

namespace Check

def manifestFiles : FileSystem where
  entries := [("web", .directory {} [("package.json", .file 0 {})])]
  contents := [(0, Text.Utf8.encode "\x7b\x7d".toList)]

/-- An order to look at files with no rule at work. -/
def idleOrder (paths : List String) : Order where
  config := ⟨[], []⟩
  paths := paths
  fix := false
  cwd := none

attribute [local instance] Host.usual

theorem meetsForeign_manifest (paths : List String) :
    (idleOrder paths).MeetsForeign manifestFiles "web/package.json" := by
  have failed : ParsedFile.load manifestFiles "web/package.json" =
      .error (.load "web/package.json" .notTree) := by
    have read : (match Document.read manifestFiles "web/package.json" with
        | .ok _ => none
        | .error failure => some failure) = some (.load "web/package.json" .notTree) := by
      decide +kernel
    refine (ParsedFile.load_foreign_iff rfl).mpr ?_
    revert read
    cases Document.read manifestFiles "web/package.json" with
    | ok document => nofun
    | error failure =>
      rintro ⟨⟩
      rfl
  refine Order.meetsForeign_of_load failed rfl fun step member => ?_
  have idle : step.order.fix = false := by rw [Order.order_of_mem_steps member, idleOrder]
  rw [Step.after_of_not_fix idle]

/-- A manifest stops the run if it is named before its directory. -/
theorem named_outcome_manifest :
    ∃ failure, ((idleOrder ["web/package.json", "web"]).run manifestFiles).result =
      .error failure := by
  refine (named_outcome (idleOrder ["web/package.json", "web"]) manifestFiles "web/package.json"
    List.mem_cons_self (by decide +kernel) (meetsForeign_manifest _)).1 ?_
  rintro ⟨directory, member, -⟩
  cases member

/-- A manifest is passed over, though it is named, if its directory is named before it. -/
theorem manifest_passed_over :
    ¬ ∀ (order : Order) (fs : FileSystem) (path : String), path ∈ order.paths →
      fs.isDirectory (Path.ofString path) = .ok false → order.MeetsForeign fs path →
      ∃ failure, (order.run fs).result = .error failure := by
  intro claim
  obtain ⟨failure, stopped⟩ := claim (idleOrder ["web", "web/package.json"]) manifestFiles
    "web/package.json" (by decide) (by decide +kernel) (meetsForeign_manifest _)
  have passed : ((idleOrder ["web", "web/package.json"]).run manifestFiles).result.toOption.isSome =
      true := by
    decide +kernel
  rw [stopped] at passed
  cases passed

end Check

end TreeLint
