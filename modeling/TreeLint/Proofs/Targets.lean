import Mathlib.Data.List.Forall2
import TreeLint.Check.Basic
import TreeLint.Proofs.Reporting

/-! The targets that paths stand for. Each path stands for a group of targets, and the groups are
merged: of several targets with one path, the first counts. So a file that is named is one that was
found if a directory with the file in it comes before. -/

namespace TreeLint.Check

theorem addTargets_append (targets first second : List Target) :
    addTargets targets (first ++ second) = addTargets (addTargets targets first) second :=
  List.foldl_append

theorem addTargets_cons (targets : List Target) (target : Target) (rest : List Target) :
    addTargets targets (target :: rest) =
      addTargets (if targets.any (·.path == target.path) then targets else targets ++ [target])
        rest := rfl

/-- Of the targets with one path, the first counts. -/
theorem find?_addTargets (targets more : List Target) (path : String) :
    (addTargets targets more).find? (·.path == path) =
      (targets.find? (·.path == path)).or (more.find? (·.path == path)) := by
  induction more generalizing targets with
  | nil => exact (Option.or_none).symm
  | cons target rest ih =>
    rw [addTargets_cons, ih, List.find?_cons]
    by_cases here : target.path = path
    · subst here
      rw [beq_self_eq_true]
      dsimp only
      cases found : targets.find? (·.path == target.path) with
      | none =>
        have absent : targets.any (·.path == target.path) = false := by
          rw [← Bool.not_eq_true, List.any_eq_true]
          rintro ⟨other, member, same⟩
          exact List.find?_eq_none.mp found other member same
        simp only [absent, Bool.false_eq_true, if_false, List.find?_append, found,
          List.find?_singleton, beq_self_eq_true, if_true, Option.none_or, Option.some_or]
      | some other =>
        have present : targets.any (·.path == target.path) = true :=
          List.any_eq_true.mpr ⟨other, List.mem_of_find?_eq_some found,
            by simpa using List.find?_some found⟩
        simp only [present, if_true, found, Option.some_or]
    · rw [beq_false_of_ne here]
      dsimp only
      split
      · rfl
      · rw [List.find?_append, List.find?_singleton, if_neg (by simpa using here), Option.or_none]

theorem nodup_addTargets {targets : List Target} (distinct : (targets.map (·.path)).Nodup)
    (more : List Target) : ((addTargets targets more).map (·.path)).Nodup := by
  induction more generalizing targets with
  | nil => exact distinct
  | cons target rest ih =>
    rw [addTargets_cons]
    split
    · exact ih distinct
    next absent =>
      refine ih ?_
      rw [List.map_append, List.map_singleton, List.nodup_append]
      refine ⟨distinct, List.pairwise_singleton _ _, fun path member other new same => absent ?_⟩
      obtain rfl := List.mem_singleton.mp new
      obtain ⟨old, there, rfl⟩ := List.mem_map.mp member
      exact List.any_eq_true.mpr ⟨old, there, by simpa using same⟩

variable [Host] {fs : FileSystem} {paths : List String} {path : String}

/-- Paths stand for the groups of targets that each of them stands for, merged. -/
theorem targetsFrom_ok_iff {done targets : List Target} :
    targetsFrom fs done paths = .ok targets ↔ ∃ groups : List (List Target),
      List.Forall₂ (fun path group => targetsOf fs path = .ok group) paths groups ∧
        targets = addTargets done groups.flatten := by
  induction paths generalizing done with
  | nil =>
    constructor
    · rintro ⟨⟩
      exact ⟨[], .nil, rfl⟩
    · rintro ⟨groups, none, rfl⟩
      cases none
      rfl
  | cons path rest ih =>
    rw [targetsFrom, bind_ok_iff]
    constructor
    · rintro ⟨group, here, others⟩
      obtain ⟨groups, each, rfl⟩ := ih.mp others
      exact ⟨group :: groups, .cons here each, by rw [List.flatten_cons, addTargets_append]⟩
    · rintro ⟨groups, each, rfl⟩
      cases each with
      | cons here others =>
        exact ⟨_, here, ih.mpr ⟨_, others, by rw [List.flatten_cons, addTargets_append]⟩⟩

theorem nodup_targets {ts : List Target} (given : targets fs paths = .ok ts) :
    (ts.map (·.path)).Nodup := by
  obtain ⟨groups, -, rfl⟩ := targetsFrom_ok_iff.mp given
  exact nodup_addTargets (by simp) _

theorem targetsOf_ok_iff {group : List Target} :
    targetsOf fs path = .ok group ↔
      (fs.isDirectory (Path.ofString path) = .ok false ∧ group = [⟨path, false⟩]) ∨
      ∃ files, fs.isDirectory (Path.ofString path) = .ok true ∧
        fs.jsonFiles (Path.ofString path) = .ok files ∧ group = files.map (⟨·, true⟩) := by
  unfold targetsOf
  rw [bind_ok_iff]
  constructor
  · rintro ⟨directory, looked, rest⟩
    cases directory with
    | false =>
      cases rest
      exact .inl ⟨looked, rfl⟩
    | true =>
      rw [if_pos rfl] at rest
      obtain ⟨files, read, given⟩ := bind_ok_iff.mp rest
      cases given
      exact .inr ⟨files, looked, read, rfl⟩
  · rintro (⟨looked, rfl⟩ | ⟨files, looked, read, rfl⟩)
    · exact ⟨false, looked, rfl⟩
    · refine ⟨true, looked, ?_⟩
      rw [if_pos rfl, read]
      rfl

/-- A path leads to a directory with a file below it. -/
def Contributes (fs : FileSystem) (directory file : String) : Prop :=
  ∃ files, fs.isDirectory (Path.ofString directory) = .ok true ∧
    fs.jsonFiles (Path.ofString directory) = .ok files ∧ file ∈ files

/-- A directory with a file below it comes before the file is named. -/
def FoundBefore (fs : FileSystem) (paths : List String) (file : String) : Prop :=
  ∃ directory ∈ paths.takeWhile (· != file), Contributes fs directory file

theorem foundBefore_iff {file : String} {before after : List String} (first : file ∉ before) :
    FoundBefore fs (before ++ file :: after) file ↔
      ∃ directory ∈ before, Contributes fs directory file := by
  have others : ∀ path ∈ before, (path != file) = true :=
    fun path member => bne_iff_ne.mpr (ne_of_mem_of_not_mem member first)
  unfold FoundBefore
  rw [List.takeWhile_append_of_pos others, List.takeWhile_cons, bne_self_eq_false]
  simp only [Bool.false_eq_true, if_false, List.append_nil]

/-- The targets that another path stands for have a file as one that was found, or not at all. -/
theorem find?_targetsOf {file : String} {group : List Target} (other : path ≠ file)
    (stands : targetsOf fs path = .ok group) :
    group.find? (·.path == file) = none ∧ ¬ Contributes fs path file ∨
      group.find? (·.path == file) = some ⟨file, true⟩ ∧ Contributes fs path file := by
  obtain ⟨plain, rfl⟩ | ⟨files, directory, read, rfl⟩ := targetsOf_ok_iff.mp stands
  · refine .inl ⟨by simpa using other, ?_⟩
    rintro ⟨files, directory, -⟩
    cases plain.symm.trans directory
  · rw [List.find?_map]
    by_cases member : file ∈ files
    · refine .inr ⟨?_, files, directory, read, member⟩
      rw [show ((·.path == file) ∘ fun name => (⟨name, true⟩ : Target)) = (· == file) from rfl]
      cases found : files.find? (· == file) with
      | none => exact absurd (beq_self_eq_true file) (List.find?_eq_none.mp found file member)
      | some name =>
        obtain rfl : name = file := by simpa using List.find?_some found
        rfl
    · refine .inl ⟨?_, ?_⟩
      · rw [Option.map_eq_none_iff, List.find?_eq_none]
        intro name inside same
        exact member (eq_of_beq same ▸ inside)
      · rintro ⟨others, -, again, inside⟩
        obtain rfl := Except.ok.inj (read.symm.trans again)
        exact member inside

/-- The targets that other paths stand for have a file as one that was found, or not at all. -/
theorem find?_flatten {file : String} {groups : List (List Target)} (unnamed : file ∉ paths)
    (each : List.Forall₂ (fun path group => targetsOf fs path = .ok group) paths groups) :
    groups.flatten.find? (·.path == file) = none ∧
        (¬ ∃ directory ∈ paths, Contributes fs directory file) ∨
      groups.flatten.find? (·.path == file) = some ⟨file, true⟩ ∧
        ∃ directory ∈ paths, Contributes fs directory file := by
  induction each with
  | nil => exact .inl ⟨rfl, by simp⟩
  | cons here _ ih =>
    obtain ⟨other, unnamed⟩ := not_or.mp (mt List.mem_cons.mpr unnamed)
    simp only [List.flatten_cons, List.find?_append, List.mem_cons, exists_eq_or_imp]
    rcases find?_targetsOf (Ne.symm other) here with ⟨none, absent⟩ | ⟨some, there⟩
    · rw [none, Option.none_or, or_iff_right absent]
      exact ih unnamed
    · exact .inr ⟨by rw [some, Option.some_or], .inl there⟩

/-- A file that is named is a target: as one that was found if a directory with it comes before,
else as one that was named. -/
theorem find?_targets {file : String} {ts : List Target} (given : targets fs paths = .ok ts)
    (named : file ∈ paths) (plain : fs.isDirectory (Path.ofString file) = .ok false) :
    ∃ found, ts.find? (·.path == file) = some ⟨file, found⟩ ∧
      (found = true ↔ FoundBefore fs paths file) := by
  obtain ⟨groups, each, rfl⟩ := targetsFrom_ok_iff.mp given
  obtain ⟨before, after, rfl, first⟩ := List.eq_append_cons_of_mem named
  have eachBefore := List.forall₂_take before.length each
  have others := List.forall₂_drop before.length each
  rw [List.take_left] at eachBefore
  rw [List.drop_left] at others
  rw [find?_addTargets, List.find?_nil, Option.none_or, foundBefore_iff first,
    ← List.take_append_drop before.length groups, List.flatten_append, List.find?_append]
  rcases find?_flatten first eachBefore with ⟨none, unfound⟩ | ⟨some, found⟩
  · generalize groups.drop before.length = later at others
    cases others with
    | cons here _ =>
      obtain ⟨-, rfl⟩ | ⟨_, directory, -⟩ := targetsOf_ok_iff.mp here
      · exact ⟨false, by simp [none], by simpa using unfound⟩
      · cases plain.symm.trans directory
  · exact ⟨true, by rw [some, Option.some_or], by simpa using found⟩

end TreeLint.Check
