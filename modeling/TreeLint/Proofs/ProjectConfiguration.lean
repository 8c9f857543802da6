import Mathlib.Data.List.Forall2
import TreeLint.Command.Basic
import TreeLint.Proofs.Files
import TreeLint.Proofs.Loading
import TreeLint.Proofs.Resolution

/-! The configuration of a project. It comes from a section of the nearest project file. A section
that is a table, or a sequence of pairs, makes a configuration or is refused; what stands in the place
of the section or of the tools around it may also be something that is no table, and then neither
happens. -/

namespace TreeLint

namespace Configuration

/-- An item of a sequence is a pair of a key and a value. -/
structure IsPair (item : Value) (pair : Pair) : Prop where
  parts : item.items = .ok [pair.given, pair.value]
  key : pair.given.key? = some pair.key

theorem pairsFrom_ok_iff {i : Nat} {items : List Value} {pairs : List Pair} :
    pairsFrom i items = .ok pairs ↔ List.Forall₂ IsPair items pairs := by
  fun_induction pairsFrom i items generalizing pairs with
  | case1 =>
    rw [List.forall₂_nil_left_iff, Except.ok.injEq, eq_comm]
  | case2 i item rest error stopped =>
    rw [List.forall₂_cons_left_iff]
    constructor
    · nofun
    · rintro ⟨pair, others, isPair, -⟩
      rw [isPair.parts] at stopped
      cases stopped
  | case3 i item rest given value parts none =>
    rw [List.forall₂_cons_left_iff]
    constructor
    · nofun
    · rintro ⟨pair, others, isPair, -⟩
      rw [isPair.parts] at parts
      cases parts
      rw [isPair.key] at none
      cases none
  | case4 i item rest given value parts key found ih =>
    rw [List.forall₂_cons_left_iff, bind_ok_iff]
    constructor
    · rintro ⟨others, read, made⟩
      cases made
      exact ⟨_, _, ⟨parts, found⟩, ih.mp read, rfl⟩
    · rintro ⟨⟨key', given', value'⟩, others, isPair, read, rfl⟩
      have same := isPair.parts
      rw [parts] at same
      cases same
      have known := isPair.key
      rw [found] at known
      cases known
      exact ⟨others, ih.mpr read, rfl⟩
  | case5 i item rest parts other held =>
    rw [List.forall₂_cons_left_iff]
    constructor
    · nofun
    · rintro ⟨pair, others, isPair, -⟩
      rw [isPair.parts] at held
      cases held
      exact (other _ _ rfl).elim

theorem pairsFrom_failsOnly (i : Nat) (items : List Value) :
    FailsOnly (fun error => ¬ error.IsRefusal) (pairsFrom i items) := by
  fun_induction pairsFrom i items with
  | case1 => exact failsOnly_ok _
  | case2 => simp [FailsOnly, ConfigError.IsRefusal]
  | case3 => simp [FailsOnly, ConfigError.IsRefusal]
  | case4 i item rest given value parts key found ih =>
    exact failsOnly_bind.mpr ⟨ih, fun others _ => failsOnly_ok _⟩
  | case5 => simp [FailsOnly, ConfigError.IsRefusal]

variable [Host]

/-- A value gives a table: it is an object, or all of its items are pairs. -/
inductive Tabular : Value → Members → Prop
  | object (members : Members) : Tabular (.object members) members
  | pairs {v : Value} {items : List Value} {pairs : List Pair} :
      (∀ members, v ≠ .object members) → v.items = .ok items → List.Forall₂ IsPair items pairs →
      Tabular v (tableOfPairs Value.keyText pairs)

theorem tableOf_ok_iff {v : Value} {members : Members} :
    tableOf Value.keyText v = .ok members ↔ Tabular v members := by
  unfold tableOf
  split
  · rename_i given
    constructor
    · intro same
      cases same
      exact .object members
    · intro tabular
      cases tabular with
      | object => rfl
      | pairs other => exact absurd rfl (other given)
  · rename_i other
    constructor
    · intro made
      split at made
      · cases made
      · rename_i items held
        obtain ⟨pairs, read, made⟩ := bind_ok_iff.mp made
        cases made
        exact .pairs other held (pairsFrom_ok_iff.mp read)
    · intro tabular
      cases tabular with
      | object => exact absurd rfl (other members)
      | pairs _ held each =>
        rw [held]
        exact bind_ok_iff.mpr ⟨_, pairsFrom_ok_iff.mpr each, rfl⟩

theorem tableOf_failsOnly (v : Value) :
    FailsOnly (fun error => ¬ error.IsRefusal) (tableOf Value.keyText v) := by
  unfold tableOf
  split
  · exact failsOnly_ok _
  · split
    · simp [FailsOnly, ConfigError.IsRefusal]
    · exact failsOnly_bind.mpr ⟨pairsFrom_failsOnly 0 _, fun pairs _ => failsOnly_ok _⟩

theorem failsOnly_ofTable {members : Members} :
    FailsOnly ConfigError.IsRefusal (ofTable members) ↔ ¬ BrokenOff members := by
  constructor
  · intro refused broken
    obtain ⟨fault, stopped⟩ := ofTable_fault_iff.mpr broken
    exact refused _ stopped
  · intro whole error stopped
    have reports := ofTable_error_iff.mp stopped
    by_contra other
    exact whole (reports.not_isRefusal_iff.mp other)

theorem not_brokenOff_nil : ¬ BrokenOff [] := by
  intro broken
  cases broken with
  | nameless nothing => cases nothing.given
  | entry first =>
    obtain ⟨before, after, given, -⟩ := first.listed
    cases given

/-- A value makes a configuration or is refused just when it is not truthy, or gives a table whose
reading does not break off. -/
theorem failsOnly_ofValue {v : Value} : FailsOnly ConfigError.IsRefusal (ofValue v) ↔
    (v.isTruthy = true → ∃ members, Tabular v members ∧ ¬ BrokenOff members) := by
  unfold ofValue
  by_cases truthy : v.isTruthy = true
  · rw [if_pos truthy, failsOnly_bind]
    simp only [truthy, true_implies, failsOnly_ofTable, tableOf_ok_iff]
    constructor
    · rintro ⟨table, each⟩
      rcases failsOnly_iff.mp table with ⟨members, given⟩ | ⟨error, refusal, stopped⟩
      · exact ⟨members, tableOf_ok_iff.mp given, each members (tableOf_ok_iff.mp given)⟩
      · exact absurd refusal (tableOf_failsOnly v error stopped)
    · rintro ⟨members, tabular, whole⟩
      have given := tableOf_ok_iff.mpr tabular
      refine ⟨?_, fun others too => ?_⟩
      · rw [given]
        exact failsOnly_ok _
      · rw [tableOf_ok_iff.mpr too, Except.ok.injEq] at given
        exact given ▸ whole
  · rw [if_neg truthy, failsOnly_ofTable]
    exact iff_of_true not_brokenOff_nil fun other => absurd other truthy

end Configuration

namespace ProjectSettings

def fileIn (directory : Path) : Path := directory.child fileName

theorem entryOrEmpty_of_truthy {table : Members} {key : String} {v : Value}
    (held : table.lookup key = some v) (truthy : v.isTruthy = true) :
    entryOrEmpty table key = v := by
  simp [entryOrEmpty, held, truthy]

theorem entryOrEmpty_of_not_truthy {table : Members} {key : String}
    (none : ∀ v, table.lookup key = some v → v.isTruthy = false) :
    entryOrEmpty table key = .object [] := by
  unfold entryOrEmpty
  split
  · rename_i v held
    simp [none v held]
  · rfl

theorem ofTable_ok_iff {table : Members} {settings : ProjectSettings} :
    ofTable table = .ok settings ↔ ∃ tools, entryOrEmpty table toolsKey = .object tools ∧
      settings = ⟨entryOrEmpty tools configKey, .object tools⟩ := by
  unfold ofTable
  split
  · rename_i tools held
    simp [held, eq_comm]
  · rename_i other
    constructor
    · nofun
    · rintro ⟨tools, held, -⟩
      exact absurd held (other tools)

variable [Host]

/-- A table is what the nearest project file of a directory holds: the file is found in it or above
it, and no directory passed on the way has one that can be read. -/
def Nearest (fs : FileSystem) (start : Path) (table : Members) : Prop :=
  ∃ resolved before directory after bytes text, fs.resolve start = .ok resolved ∧
    upward resolved = before ++ directory :: after ∧
    (∀ passed ∈ before, (∃ there, fs.pathExists (fileIn passed) = .ok there) ∧
      ∀ bytes, fs.readBytes (fileIn passed) ≠ .ok bytes) ∧
    fs.readBytes (fileIn directory) = .ok bytes ∧ Text.Utf8.decode bytes = .ok text ∧
    Toml.parse Host.settingsRoom text = .ok table

theorem search_of_unread {fs : FileSystem} {directory : Path} {there : Bool}
    (looked : fs.pathExists (fileIn directory) = .ok there)
    (unread : ∀ bytes, fs.readBytes (fileIn directory) ≠ .ok bytes) (rest : List Path) :
    search fs (directory :: rest) = search fs rest := by
  rw [search]
  unfold fileIn at looked unread
  simp only [looked, Except.mapError, Bind.bind, Except.bind]
  cases there with
  | false => rfl
  | true =>
    cases read : fs.readBytes (directory.child fileName) with
    | ok bytes => exact absurd read (unread bytes)
    | error error => rfl

theorem search_of_read {fs : FileSystem} {directory : Path} {bytes : List UInt8}
    (read : fs.readBytes (fileIn directory) = .ok bytes) (rest : List Path) :
    search fs (directory :: rest) = ofBytes bytes := by
  obtain ⟨entry, found, -⟩ := bind_ok_iff.mp read
  have looked := Layout.pathExists_of_find found
  rw [search]
  unfold fileIn at looked read
  simp only [looked, read, Except.mapError, Bind.bind, Except.bind]
  rfl

theorem search_of_passed {fs : FileSystem} {before : List Path} (rest : List Path)
    (passed : ∀ directory ∈ before, (∃ there, fs.pathExists (fileIn directory) = .ok there) ∧
      ∀ bytes, fs.readBytes (fileIn directory) ≠ .ok bytes) :
    search fs (before ++ rest) = search fs rest := by
  induction before with
  | nil => rfl
  | cons directory others ih =>
    obtain ⟨⟨⟨there, looked⟩, unread⟩, later⟩ := List.forall_mem_cons.mp passed
    rw [List.cons_append, search_of_unread looked unread, ih later]

/-- The settings of a project are those of its nearest project file. -/
theorem load_of_nearest {fs : FileSystem} {start : Path} {table : Members}
    (nearest : Nearest fs start table) : load fs start = (ofTable table).mapError .fault := by
  obtain ⟨resolved, before, directory, after, bytes, text, here, upward, passed, read, decoded,
    parsed⟩ := nearest
  have settings : ofBytes bytes = (ofTable table).mapError .fault := by
    simp only [ofBytes, decoded, parsed]
  unfold load
  rw [here]
  change search fs (ProjectSettings.upward resolved) = _
  rw [upward, search_of_passed _ passed, search_of_read read, settings]

/-- The section of a table of a project file can be used: the tools are a table, and what stands in
the place of the section gives one whose reading does not break off. Whatever is not truthy counts as
absent. -/
structure Sectioned (table : Members) : Prop where
  tools : ∀ v, table.lookup toolsKey = some v → v.isTruthy = true → ∃ tools, v = .object tools
  config : ∀ tools v, table.lookup toolsKey = some (.object tools) →
    tools.lookup configKey = some v → v.isTruthy = true →
    ∃ members, Configuration.Tabular v members ∧ ¬ Configuration.BrokenOff members

/-- The section of the tools makes a configuration or is refused just when it is not truthy or gives
a table whose reading does not break off. -/
theorem failsOnly_section (tools : Members) : FailsOnly ConfigError.IsRefusal
      (Configuration.ofValue (entryOrEmpty tools configKey)) ↔
    ∀ v, tools.lookup configKey = some v → v.isTruthy = true →
      ∃ members, Configuration.Tabular v members ∧ ¬ Configuration.BrokenOff members := by
  rw [Configuration.failsOnly_ofValue]
  by_cases given : ∃ v, tools.lookup configKey = some v ∧ v.isTruthy = true
  · obtain ⟨v, held, truthy⟩ := given
    rw [entryOrEmpty_of_truthy held truthy]
    simp [held, truthy]
  · have none : ∀ v, tools.lookup configKey = some v → v.isTruthy = false := by
      intro v held
      rw [← Bool.not_eq_true]
      exact fun truthy => given ⟨v, held, truthy⟩
    rw [entryOrEmpty_of_not_truthy none]
    refine iff_of_true nofun fun v held truthy => ?_
    rw [none v held] at truthy
    cases truthy

theorem sectioned_iff {table : Members} : Sectioned table ↔
    ∃ tools, entryOrEmpty table toolsKey = .object tools ∧
      ∀ v, tools.lookup configKey = some v → v.isTruthy = true →
        ∃ members, Configuration.Tabular v members ∧ ¬ Configuration.BrokenOff members := by
  by_cases given : ∃ v, table.lookup toolsKey = some v ∧ v.isTruthy = true
  · obtain ⟨v, held, truthy⟩ := given
    rw [entryOrEmpty_of_truthy held truthy]
    constructor
    · intro sectioned
      obtain ⟨tools, rfl⟩ := sectioned.tools v held truthy
      exact ⟨tools, rfl, fun v => sectioned.config tools v held⟩
    · rintro ⟨tools, rfl, each⟩
      constructor
      · intro other too _
        rw [held, Option.some.injEq] at too
        exact ⟨tools, too.symm⟩
      · intro others v too
        rw [held, Option.some.injEq, Value.object.injEq] at too
        exact too ▸ each v
  · have none : ∀ v, table.lookup toolsKey = some v → v.isTruthy = false := by
      intro v held
      rw [← Bool.not_eq_true]
      exact fun truthy => given ⟨v, held, truthy⟩
    rw [entryOrEmpty_of_not_truthy none]
    refine iff_of_true ⟨fun v held truthy => ?_, fun tools v held inside _ => ?_⟩
      ⟨[], rfl, by simp⟩
    · exact absurd ⟨v, held, truthy⟩ given
    · -- an object counts as absent only if it is empty, and then it has no section
      have empty := none _ held
      cases tools with
      | nil => cases inside
      | cons tool rest => cases empty

end ProjectSettings

def CommandError.IsRefusal (error : CommandError) : Prop :=
  ∃ refusal : ConfigError, refusal.IsRefusal ∧ error = .config refusal

namespace Command

variable [Host]

def projectConfiguration (fs : FileSystem) (start : Path) : Except CommandError Configuration := do
  let settings ← (ProjectSettings.load fs start).mapError .failure
  (configure settings []).mapError .config

theorem configure_nil (settings : ProjectSettings) :
    configure settings [] = Configuration.ofValue settings.config := by
  unfold configure
  cases Configuration.ofValue settings.config <;> rfl

/-- A check that brings no settings of its own ends with the error of the configuration of the
project, before it looks at a file. -/
theorem run_of_projectConfiguration {cwd : String} {fs : FileSystem} {arguments : List String}
    {task : CheckArguments} {format : Format} {error : ConfigError}
    (asked : Task.ofArguments arguments = some (.check task))
    (known : Format.ofName? task.format = some format) (plain : task.overrides = [])
    (stopped : projectConfiguration fs ⟨.here, []⟩ = .error (.config error)) :
    run cwd fs arguments = .stop fs (.config error) := by
  rcases bind_error_iff.mp stopped with early | ⟨settings, loaded, later⟩
  · obtain ⟨failure, -, same⟩ := mapError_error_iff.mp early
    cases same
  · obtain ⟨cause, refused, same⟩ := mapError_error_iff.mp later
    cases same
    have none : Override.readAll task.overrides = .ok [] := by
      rw [plain]
      rfl
    simp only [run, mapError_ok_iff.mp loaded, asked, check, known, none, refused]

open ProjectSettings (Nearest Sectioned)

/-- The nearest project file makes a configuration, or a refusal of one, just when its section can
be used. -/
theorem projectConfiguration_outcome {fs : FileSystem} {start : Path} {table : Members}
    (nearest : Nearest fs start table) :
    ((∃ config, projectConfiguration fs start = .ok config) ∨
      ∃ refusal : ConfigError, refusal.IsRefusal ∧
        projectConfiguration fs start = .error (.config refusal)) ↔ Sectioned table := by
  have told : ((∃ config, projectConfiguration fs start = .ok config) ∨
      ∃ refusal : ConfigError, refusal.IsRefusal ∧
        projectConfiguration fs start = .error (.config refusal)) ↔
      FailsOnly CommandError.IsRefusal (projectConfiguration fs start) := by
    rw [failsOnly_iff]
    refine or_congr_right ?_
    constructor
    · rintro ⟨refusal, refused, stopped⟩
      exact ⟨_, ⟨refusal, refused, rfl⟩, stopped⟩
    · rintro ⟨_, ⟨refusal, refused, rfl⟩, stopped⟩
      exact ⟨refusal, refused, stopped⟩
  have never (failure : Failure) : ¬ CommandError.IsRefusal (.failure failure) := by
    rintro ⟨refusal, -, same⟩
    cases same
  have only (error : ConfigError) : CommandError.IsRefusal (.config error) ↔ error.IsRefusal := by
    simp [CommandError.IsRefusal]
  rw [told, ProjectSettings.sectioned_iff]
  unfold projectConfiguration
  rw [ProjectSettings.load_of_nearest nearest, failsOnly_bind, failsOnly_mapError,
    failsOnly_of_never never]
  simp only [mapError_ok_iff, configure_nil, failsOnly_mapError, only,
    ← ProjectSettings.failsOnly_section]
  constructor
  · rintro ⟨⟨settings, made⟩, each⟩
    obtain ⟨tools, held, rfl⟩ := ProjectSettings.ofTable_ok_iff.mp made
    exact ⟨tools, held, each _ made⟩
  · rintro ⟨tools, held, refused⟩
    have made := ProjectSettings.ofTable_ok_iff.mpr ⟨tools, held, rfl⟩
    refine ⟨⟨_, made⟩, fun settings too => ?_⟩
    rw [made, Except.ok.injEq] at too
    exact too ▸ refused

end Command

namespace Command

open ProjectSettings (Nearest Sectioned)

def numberedText : List Char := "[tool]\nfrontend-rules = 5\n".toList

def numberedProject : FileSystem where
  entries := [("pyproject.toml", .file 0 {})]
  contents := [(0, Text.Utf8.encode numberedText)]

attribute [local instance] Host.usual

theorem numberedProject_nearest : ∃ table, Nearest numberedProject ⟨.here, []⟩ table := by
  have parses : (Toml.parse Host.settingsRoom numberedText).toOption.isSome = true := by
    decide +kernel
  have here : numberedProject.resolve ⟨.here, []⟩ = .ok ⟨.root, []⟩ := by decide +kernel
  have read : numberedProject.readBytes (ProjectSettings.fileIn ⟨.root, []⟩) =
      .ok (Text.Utf8.encode numberedText) := by
    decide +kernel
  obtain ⟨table, parsed⟩ := exists_ok_of_isSome parses
  exact ⟨table, ⟨.root, []⟩, [], ⟨.root, []⟩, [], Text.Utf8.encode numberedText, numberedText,
    here, rfl, List.forall_mem_nil _, read, Text.Utf8.decode_encode _, parsed⟩

theorem projectConfiguration_outcome_numbered : ∃ table,
    Nearest numberedProject ⟨.here, []⟩ table ∧
    (((∃ config, projectConfiguration numberedProject ⟨.here, []⟩ = .ok config) ∨
      ∃ refusal : ConfigError, refusal.IsRefusal ∧
        projectConfiguration numberedProject ⟨.here, []⟩ = .error (.config refusal)) ↔
      Sectioned table) := by
  obtain ⟨table, nearest⟩ := numberedProject_nearest
  exact ⟨table, nearest, projectConfiguration_outcome nearest⟩

/-- A section that is a number makes no configuration, and is not refused. -/
theorem projectConfiguration_stops : ¬ ∀ (fs : FileSystem) (start : Path) (table : Members),
    Nearest fs start table → (∃ config, projectConfiguration fs start = .ok config) ∨
      ∃ refusal : ConfigError, refusal.IsRefusal ∧
        projectConfiguration fs start = .error (.config refusal) := by
  intro claim
  have stopped : (match projectConfiguration numberedProject ⟨.here, []⟩ with
      | .error (.config error) => some error
      | _ => none) = some .notTable := by
    decide +kernel
  obtain ⟨table, nearest⟩ := numberedProject_nearest
  rcases claim _ _ _ nearest with ⟨config, made⟩ | ⟨refusal, refused, same⟩
  · rw [made] at stopped
    cases stopped
  · rw [same] at stopped
    cases stopped
    exact refused

end Command

end TreeLint
