import Mathlib.Data.List.Induction
import Mathlib.Data.String.Basic
import TreeLint.Proofs.NamedTargets
import TreeLint.Proofs.Search

/-! The files that paths stand for. A directory stands for the JSON files that a search finds below it
and every other path for itself. Of the files that several paths stand for, each is listed once, where
the first of these paths has it, and the files that are new with a directory are in ascending order.
Collecting fails only where a search cannot look at something that it has to. -/

namespace TreeLint

namespace Check

/-- What is added to targets are some of those that are given, in their order. -/
theorem addTargets_eq_append (targets more : List Target) : ∃ added,
    addTargets targets more = targets ++ added ∧ added.Sublist more ∧
      ∀ path, path ∈ (targets ++ added).map (·.path) ↔
        path ∈ targets.map (·.path) ∨ path ∈ more.map (·.path) := by
  induction more generalizing targets with
  | nil => exact ⟨[], (List.append_nil targets).symm, .slnil, by simp⟩
  | cons target rest ih =>
    rw [addTargets_cons]
    split
    · rename_i there
      obtain ⟨added, same, sub, mem⟩ := ih targets
      refine ⟨added, same, sub.cons target, fun path => ?_⟩
      have held : path = target.path → path ∈ targets.map (·.path) := by
        rintro rfl
        simpa using there
      rw [mem, List.map_cons, List.mem_cons]
      tauto
    · obtain ⟨added, same, sub, mem⟩ := ih (targets ++ [target])
      refine ⟨target :: added, by simpa using same, sub.cons_cons target, fun path => ?_⟩
      have mem := mem path
      simp only [List.append_assoc, List.singleton_append] at mem
      rw [mem, List.map_append, List.map_singleton, List.mem_append, List.mem_singleton,
        List.map_cons, List.mem_cons, or_assoc]

theorem addTargets_of_covered {targets more : List Target}
    (covered : ∀ target ∈ more, target.path ∈ targets.map (·.path)) :
    addTargets targets more = targets := by
  induction more with
  | nil => rfl
  | cons target rest ih =>
    obtain ⟨here, others⟩ := List.forall_mem_cons.mp covered
    rw [addTargets_cons, if_pos (by simpa using here), ih others]

end Check

section

variable [Host]

theorem Host.precedes_iff {a b : String} :
    precedes a b = true ↔ ¬ List.Lex (· < ·) (codes b) (codes a) := by
  rw [precedes, Bool.not_eq_true', ← Bool.not_eq_true, List.lex_eq_true_iff_lex]
  simp only [Nat.blt_eq]

theorem Host.precedes_trans (a b c : String) (first : precedes a b = true)
    (second : precedes b c = true) : precedes a c = true :=
  precedes_iff.mpr (List.le_trans (precedes_iff.mp first) (precedes_iff.mp second))

theorem Host.precedes_total (a b : String) : (precedes a b || precedes b a) = true := by
  rw [Bool.or_eq_true, precedes_iff, precedes_iff]
  exact List.le_total _ _

/-- It can be told what a path leads to, and if that is a directory, a search can look at what it has
to in each directory to which it comes. -/
structure Layout.Reachable (layout : Layout) (path : Path) : Prop where
  way : ∀ error, layout.find path = .error error → error.escapes = false
  below : layout.isDirectory path = .ok true → ∀ left directory,
    Comes layout Host.directoryLevels path left directory → layout.Searchable left directory

/-- A search from a directory gives the JSON files that it finds, in ascending order. -/
theorem Layout.jsonFiles_ok_iff {layout : Layout} {path : Path}
    (leads : layout.isDirectory path = .ok true) {files : List String} :
    layout.jsonFiles path = .ok files ↔ ∃ found, layout.search Host.directoryLevels path = .ok found ∧
      files = found.mergeSort Host.precedes := by
  unfold jsonFiles
  rw [leads, ok_bind, if_pos rfl, bind_ok_iff]
  refine exists_congr fun found => and_congr_right fun _ => ?_
  exact ⟨fun given => (Except.ok.inj given).symm, fun same => congrArg Except.ok same.symm⟩

/-- There is nothing in a directory at a name that is too long. -/
theorem Layout.find_of_long {layout : Layout} {name : String} {access : Access}
    {entries : List (String × Entry)} (dot : name ≠ ".") (dots : name ≠ "..")
    (usable : textError? name = none) (long : layout.nameLimit < byteLength name)
    (start : layout.at? layout.start = some (.directory access entries))
    (pass : access.pass = true) : layout.find ⟨.here, [name]⟩ = .error (.nameTooLong name) := by
  have text : Path.text ⟨.here, [name]⟩ = name := by
    simp [Path.text, Anchor.text]
  have located : layout.locate ⟨.here, [name]⟩ = .error (.nameTooLong name) := by
    unfold locate pathError?
    rw [text, usable, Option.none_or]
    split
    · rename_i error whole
      split at whole
      · cases whole
        rfl
      · cases whole
    · simp [way, Path.isAbsolute, walk, advance, step, start, pass, dot, dots, long, Bind.bind,
        Except.bind]
  unfold find
  rw [located]
  rfl

namespace Check

variable {fs : FileSystem} {paths more : List String} {path file : String}

/-- A path stands for a file: for itself, if it leads to no directory, and else for each JSON file that
a search finds below. -/
inductive StandsFor (fs : FileSystem) (path : String) : String → Prop
  | named : fs.isDirectory (Path.ofString path) = .ok false → StandsFor fs path path
  | found {file : String} : fs.isDirectory (Path.ofString path) = .ok true →
      fs.Finds Host.directoryLevels (Path.ofString path) file → StandsFor fs path file

/-- Of two files, one comes first by the first path that stands for one of them: it alone does, or the
files are in ascending order. -/
def Precedes (fs : FileSystem) (paths : List String) (one two : String) : Prop :=
  ∃ before path after, paths = before ++ path :: after ∧
    (∀ other ∈ before, ¬ StandsFor fs other one ∧ ¬ StandsFor fs other two) ∧
    StandsFor fs path one ∧ (StandsFor fs path two → Host.precedes one two = true)

/-- Files are those that paths stand for, each listed once, in the order in which the paths stand for
them. -/
structure Collects (fs : FileSystem) (paths files : List String) : Prop where
  nodup : files.Nodup
  mem_iff : ∀ file, file ∈ files ↔ ∃ path ∈ paths, StandsFor fs path file
  ordered : files.Pairwise (Precedes fs paths)

/-- The targets that a path stands for are its files, in ascending order. -/
theorem targetsOf_files {group : List Target} (stands : targetsOf fs path = .ok group) :
    (group.map (·.path)).Pairwise (fun one two => Host.precedes one two = true) ∧
      ∀ file, file ∈ group.map (·.path) ↔ StandsFor fs path file := by
  obtain ⟨plain, rfl⟩ | ⟨files, leads, read, rfl⟩ := targetsOf_ok_iff.mp stands
  · refine ⟨List.pairwise_singleton _ _, fun file => ?_⟩
    rw [List.map_singleton, List.mem_singleton]
    constructor
    · rintro rfl
      exact .named plain
    · rintro (_ | ⟨leads, -⟩)
      · rfl
      · cases plain.symm.trans leads
  · have same : (files.map fun name => (⟨name, true⟩ : Target)).map (·.path) = files := by
      rw [List.map_map]
      exact List.map_id files
    obtain ⟨found, searched, rfl⟩ := (Layout.jsonFiles_ok_iff leads).mp read
    rw [same]
    constructor
    · exact List.pairwise_mergeSort Host.precedes_trans Host.precedes_total found
    · intro file
      rw [List.mem_mergeSort, Layout.mem_search searched]
      refine ⟨.found leads, ?_⟩
      rintro (plain | ⟨-, below⟩)
      · cases plain.symm.trans leads
      · exact below

theorem targetsOf_ok : (∃ group, targetsOf fs path = .ok group) ↔
    fs.Reachable (Path.ofString path) := by
  constructor
  · rintro ⟨group, stands⟩
    obtain ⟨plain, -⟩ | ⟨files, leads, read, -⟩ := targetsOf_ok_iff.mp stands
    · refine ⟨Layout.isDirectory_ok_iff.mp ⟨false, plain⟩, fun leads => ?_⟩
      cases plain.symm.trans leads
    · obtain ⟨found, searched, -⟩ := (Layout.jsonFiles_ok_iff leads).mp read
      exact ⟨Layout.isDirectory_ok_iff.mp ⟨true, leads⟩, fun _ =>
        Layout.search_ok.mp ⟨found, searched⟩⟩
  · intro reachable
    obtain ⟨leads, looked⟩ := Layout.isDirectory_ok_iff.mpr reachable.way
    cases leads with
    | false => exact ⟨_, targetsOf_ok_iff.mpr (.inl ⟨looked, rfl⟩)⟩
    | true =>
      obtain ⟨found, searched⟩ := Layout.search_ok.mpr (reachable.below looked)
      have read := (Layout.jsonFiles_ok_iff looked).mpr ⟨found, searched, rfl⟩
      exact ⟨_, targetsOf_ok_iff.mpr (.inr ⟨_, looked, read, rfl⟩)⟩

theorem targetsFrom_append (done : List Target) (first second : List String) :
    targetsFrom fs done (first ++ second) =
      targetsFrom fs done first >>= fun targets => targetsFrom fs targets second := by
  induction first generalizing done with
  | nil => rfl
  | cons path rest ih =>
    rw [List.cons_append, targetsFrom, targetsFrom]
    cases targetsOf fs path with
    | error error => rfl
    | ok group => exact ih _

/-- The files of one more path are put behind those of the paths before it. -/
theorem files_concat_ok_iff {files : List String} : Check.files fs (paths ++ [path]) = .ok files ↔
    ∃ earlier group, targets fs paths = .ok earlier ∧ targetsOf fs path = .ok group ∧
      files = (addTargets earlier group).map (·.path) := by
  unfold Check.files targets
  rw [targetsFrom_append]
  simp only [bind_ok_iff, targetsFrom, Pure.pure, Except.pure, Except.ok.injEq]
  constructor
  · rintro ⟨_, ⟨earlier, given, group, stands, rfl⟩, rfl⟩
    exact ⟨earlier, group, given, stands, rfl⟩
  · rintro ⟨earlier, group, given, stands, rfl⟩
    exact ⟨_, ⟨earlier, given, group, stands, rfl⟩, rfl⟩

theorem Precedes.append {one two : String} (precedes : Precedes fs paths one two)
    (more : List String) : Precedes fs (paths ++ more) one two := by
  obtain ⟨before, path, after, rfl, neither, stands⟩ := precedes
  exact ⟨before, path, after ++ more, by simp, neither, stands⟩

/-- What stands for a file first stands before all that only later paths stand for. -/
theorem precedes_of_only {one two : String} (first : ∃ path ∈ paths, StandsFor fs path one)
    (later : ¬ ∃ path ∈ paths, StandsFor fs path two) : Precedes fs paths one two := by
  induction paths with
  | nil => simp at first
  | cons path rest ih =>
    simp only [List.mem_cons, exists_eq_or_imp, not_or] at first later
    by_cases here : StandsFor fs path one
    · exact ⟨[], path, rest, rfl, List.forall_mem_nil _, here, fun two => absurd two later.1⟩
    · obtain ⟨before, other, after, rfl, neither, stands⟩ := ih (first.resolve_left here) later.2
      exact ⟨path :: before, other, after, rfl, List.forall_mem_cons.mpr ⟨⟨here, later.1⟩, neither⟩,
        stands⟩

/-- One more path adds those of its files that are not there, behind all others. -/
theorem Collects.concat {earlier group : List Target}
    (collects : Collects fs paths (earlier.map (·.path))) (stands : targetsOf fs path = .ok group) :
    Collects fs (paths ++ [path]) ((addTargets earlier group).map (·.path)) := by
  have distinct := nodup_addTargets collects.nodup group
  obtain ⟨sorted, mem⟩ := targetsOf_files stands
  obtain ⟨added, same, sub, there⟩ := addTargets_eq_append earlier group
  rw [same] at distinct ⊢
  refine ⟨distinct, fun file => ?_, ?_⟩
  · rw [there, collects.mem_iff, mem]
    simp [or_and_right, exists_or]
  · rw [List.map_append] at distinct ⊢
    obtain ⟨-, fresh, apart⟩ := List.nodup_append.mp distinct
    have new : ∀ file ∈ added.map (·.path), StandsFor fs path file ∧
        ¬ ∃ other ∈ paths, StandsFor fs other file := by
      intro file member
      refine ⟨(mem file).mp ((sub.map _).subset member), fun old => ?_⟩
      exact apart file ((collects.mem_iff file).mpr old) file member rfl
    refine List.pairwise_append.mpr ⟨collects.ordered.imp (·.append _), ?_, ?_⟩
    · -- Behind the paths before, the new files are in the order of the files of the new path.
      refine (sorted.sublist (sub.map _)).imp_of_mem ?_
      intro one two first second below
      obtain ⟨stands, none⟩ := new one first
      refine ⟨paths, path, [], rfl, fun other member => ⟨?_, ?_⟩, stands, fun _ => ?_⟩
      · exact fun holds => none ⟨other, member, holds⟩
      · exact fun holds => (new two second).2 ⟨other, member, holds⟩
      · exact below
    · intro one old two member
      exact (precedes_of_only ((collects.mem_iff one).mp old) (new two member).2).append _

theorem collects_files {files : List String} (given : Check.files fs paths = .ok files) :
    Collects fs paths files := by
  induction paths using List.reverseRecOn generalizing files with
  | nil =>
    cases given
    exact ⟨.nil, by simp, .nil⟩
  | append_singleton paths path ih =>
    obtain ⟨earlier, group, collected, stands, rfl⟩ := files_concat_ok_iff.mp given
    refine Collects.concat (ih ?_) stands
    unfold Check.files
    rw [collected]
    rfl

theorem files_ok : (∃ files, Check.files fs paths = .ok files) ↔
    ∀ path ∈ paths, fs.Reachable (Path.ofString path) := by
  induction paths using List.reverseRecOn with
  | nil => exact iff_of_true ⟨_, rfl⟩ (List.forall_mem_nil _)
  | append_singleton paths path ih =>
    have earlier : (∃ files, Check.files fs paths = .ok files) ↔
        ∃ earlier, targets fs paths = .ok earlier := by
      unfold Check.files
      rw [exists_bind_ok_iff]
      simp [Pure.pure, Except.pure]
    rw [List.forall_mem_append, List.forall_mem_singleton, ← ih, earlier, ← targetsOf_ok]
    simp only [files_concat_ok_iff]
    constructor
    · rintro ⟨_, earlier, group, collected, stands, -⟩
      exact ⟨⟨earlier, collected⟩, group, stands⟩
    · rintro ⟨⟨earlier, collected⟩, group, stands⟩
      exact ⟨_, earlier, group, collected, stands, rfl⟩

/-- Paths that stand for files of those before them only add nothing. -/
theorem files_append_of_covered {files : List String} (given : Check.files fs paths = .ok files)
    (covered : ∀ path ∈ more, fs.Reachable (Path.ofString path) ∧
      ∀ file, StandsFor fs path file → file ∈ files) :
    Check.files fs (paths ++ more) = .ok files := by
  induction more using List.reverseRecOn with
  | nil => rwa [List.append_nil]
  | append_singleton more path ih =>
    rw [List.forall_mem_append, List.forall_mem_singleton] at covered
    obtain ⟨earlier, reachable, inside⟩ := covered
    have before := ih earlier
    unfold Check.files at before
    obtain ⟨targets, collected, same⟩ := bind_ok_iff.mp before
    obtain rfl := Except.ok.inj same
    obtain ⟨group, stands⟩ := targetsOf_ok.mpr reachable
    rw [← List.append_assoc, files_concat_ok_iff]
    refine ⟨targets, group, collected, stands, ?_⟩
    rw [addTargets_of_covered fun target member =>
      inside _ (((targetsOf_files stands).2 _).mp (List.mem_map_of_mem member))]

/-- The files that paths stand for are collected just when it can be told what each path leads to and
each search can look at all that it has to. Each is listed once, in the order in which the paths stand
for them, and paths that stand for no others add nothing, such as the same paths again. -/
theorem files_outcome (fs : FileSystem) (paths : List String) :
    ((∃ files, Check.files fs paths = .ok files) ↔
      ∀ path ∈ paths, fs.Reachable (Path.ofString path)) ∧
    ∀ files, Check.files fs paths = .ok files →
      Collects fs paths files ∧ Check.files fs (paths ++ paths) = .ok files ∧
      ∀ more, (∀ path ∈ more, fs.Reachable (Path.ofString path) ∧
          ∀ file, StandsFor fs path file → file ∈ files) →
        Check.files fs (paths ++ more) = .ok files := by
  refine ⟨files_ok, fun files given => ?_⟩
  have collects := collects_files given
  refine ⟨collects, files_append_of_covered given fun path member => ?_,
    fun more => files_append_of_covered given⟩
  exact ⟨files_ok.mp ⟨files, given⟩ path member, fun file stands =>
    (collects.mem_iff file).mpr ⟨path, member, stands⟩⟩

end Check

end

namespace Check

attribute [local instance] Host.usual

/-- The manifest in a directory is collected once, though it is named too. -/
theorem files_outcome_manifest : ∃ files,
    Check.files manifestFiles ["web/package.json", "web"] = .ok files ∧ files.Nodup ∧
      "web/package.json" ∈ files := by
  have collected : Check.files manifestFiles ["web/package.json", "web"] =
      .ok ["web/package.json"] := by
    refine toOption_eq_some_iff.mp ?_
    decide +kernel
  obtain ⟨collects, -, -⟩ := (files_outcome manifestFiles ["web/package.json", "web"]).2 _ collected
  refine ⟨_, collected, collects.nodup, (collects.mem_iff _).mpr ?_⟩
  exact ⟨_, List.mem_cons_self, .named (toOption_eq_some_iff.mp (by decide +kernel))⟩

def longName : String := String.ofList (List.replicate 256 'a')

theorem longName_toList : longName.toList = List.replicate 256 'a' := String.toList_ofList

theorem longName_ne {name : String} (short : name.length < 256) : longName ≠ name := by
  rintro rfl
  rw [← String.length_toList, longName_toList, List.length_replicate] at short
  exact lt_irrefl _ short

theorem ofString_longName : Path.ofString longName = ⟨.here, [longName]⟩ := by
  have cut : Text.pieces '/' longName.toList = [longName.toList] := by
    rw [longName_toList]
    decide +kernel
  have kept : (longName != "" && longName != ".") = true := by
    have filled : longName ≠ "" := longName_ne (by decide)
    have other : longName ≠ "." := longName_ne (by decide)
    simp [filled, other]
  rw [Path.ofString, cut, List.map_singleton, String.ofList_toList, List.filter_singleton, kept,
    longName_toList]
  rfl

/-- A path with too long a name is not collected, though it leads to no directory. -/
theorem long_name_stops : ¬ ∀ (fs : FileSystem) (paths : List String), ∃ files,
    Check.files fs paths = .ok files ∧ Collects fs paths files := by
  intro claim
  obtain ⟨files, given, -⟩ := claim { entries := [], contents := [] } [longName]
  have reachable := files_ok.mp ⟨files, given⟩ longName List.mem_cons_self
  rw [ofString_longName] at reachable
  refine nomatch reachable.way _ (Layout.find_of_long (longName_ne (by decide))
    (longName_ne (by decide)) ?_ ?_ rfl rfl)
  · rw [Layout.textError?, longName_toList]
    decide +kernel
  · rw [Layout.byteLength, longName_toList]
    decide +kernel

end Check

end TreeLint
