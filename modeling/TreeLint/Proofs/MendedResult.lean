import TreeLint.Proofs.CheckSteps
import TreeLint.Proofs.FixSelection

/-! What is left of a result when a file is mended. The violations whose changes are made are taken
out by their positions and not by what they say, so of two that say the same one may go and the
other stay, and every violation is either counted as mended or still there. -/

namespace TreeLint

theorem append_filter_perm {α : Type} {chosen all : List α} {p : α → Bool} (distinct : all.Nodup)
    (own : chosen.Nodup) (among : chosen ⊆ all) (others : ∀ a ∈ all, p a = true ↔ a ∉ chosen) :
    (chosen ++ all.filter p).Perm all := by
  have apart : chosen.Disjoint (all.filter p) := by
    intro a one two
    obtain ⟨member, left⟩ := List.mem_filter.mp two
    exact (others a member).mp left one
  refine (List.perm_ext_iff_of_nodup (own.append (distinct.filter p) apart) distinct).mpr ?_
  intro a
  have inside := @among a
  have left := others a
  simp only [List.mem_append, List.mem_filter]
  tauto

namespace LintResult

variable (result : LintResult) (text : List Char)

theorem mending_perm : ((result.mending text).applied ++ (result.mending text).skipped).Perm
    (result.violations.zipIdx.filter fun x => x.1.isFixable) :=
  Fixing.applied_append_skipped_perm _ text _

theorem applied_subset : (result.mending text).applied ⊆ result.violations.zipIdx := fun _ member =>
  List.mem_of_mem_filter ((result.mending_perm text).subset (List.mem_append_left _ member))

theorem applied_nodup : (result.mending text).applied.Nodup :=
  List.Nodup.of_append_left
    ((result.mending_perm text).nodup_iff.mpr ((zipIdx_nodup result.violations).filter _))

/-- The violations with their positions, without those whose changes are made. -/
def kept : List (Violation × Nat) :=
  result.violations.zipIdx.filter (· ∉ (result.mending text).applied)

theorem applied_append_kept_perm :
    ((result.mending text).applied ++ result.kept text).Perm result.violations.zipIdx :=
  append_filter_perm (zipIdx_nodup _) (result.applied_nodup text) (result.applied_subset text)
    fun _ _ => decide_eq_true_iff

/-- A change that comes with a violation is made, or comes with a violation that is kept. -/
theorem countP_kept : (result.kept text).countP (fun x => x.1.isFixable) =
    (result.mending text).skipped.length := by
  have fixable : (result.mending text).applied.countP (fun x => x.1.isFixable) =
      (result.mending text).applied.length := by
    refine List.countP_eq_length.mpr fun x member => ?_
    have chosen := (result.mending_perm text).subset (List.mem_append_left _ member)
    exact (List.mem_filter.mp chosen).2
  have every := (result.applied_append_kept_perm text).countP_eq (fun x => x.1.isFixable)
  have offers := (result.mending_perm text).length_eq
  rw [List.countP_append, fixable] at every
  rw [List.length_append, ← List.countP_eq_length_filter] at offers
  omega

/-- What is left when a text is mended for the violations of a result. The changes that are made
are those of some occurrences of violations, and all other occurrences are kept, in their order. -/
structure Leaves (left : LintResult) : Prop where
  filename : left.filename = result.filename
  fixedSource : left.fixedSource = some (String.ofList (result.mendedText text))
  applied : (result.mending text).applied.map (·.1) =
    (Fixing.apply Violation.fix text result.violations).applied
  occurrences : (result.mending text).applied ⊆ result.violations.zipIdx
  violations : left.violations = (result.kept text).map (·.1)
  appliedFixes : left.appliedFixes =
    (Fixing.apply Violation.fix text result.violations).applied.length
  total : left.appliedFixes + left.violations.length = result.violations.length
  fixableCount : left.fixableCount =
    (Fixing.apply Violation.fix text result.violations).skipped.length

end LintResult

namespace Check

variable (result : LintResult) (text : List Char)

theorem filter_positions : (result.violations.zipIdx.filter fun (_, i) =>
    !((result.mending text).applied.map (·.2)).contains i) = result.kept text := by
  refine List.filter_congr fun x member => ?_
  have same : x.2 ∈ (result.mending text).applied.map (·.2) ↔
      x ∈ (result.mending text).applied := by
    refine ⟨fun among => ?_, List.mem_map_of_mem⟩
    obtain ⟨y, applied, position⟩ := List.mem_map.mp among
    have distinct := List.nodup_zipIdx_map_snd result.violations
    exact List.inj_on_of_nodup_map distinct (result.applied_subset text applied) member position ▸
      applied
  simp [same]

theorem mended_leaves : result.Leaves text
    (mended result (result.mending text).text ((result.mending text).applied.map (·.2))) := by
  obtain ⟨same, applied, skipped⟩ := result.mending_map text
  have violations := congrArg (List.map (·.1)) (filter_positions result text)
  have count : ((result.mending text).applied.map (·.2)).length =
      (Fixing.apply Violation.fix text result.violations).applied.length := by
    simp [← applied]
  refine ⟨rfl, by rw [← same]; rfl, applied, result.applied_subset text, violations, count, ?_, ?_⟩
  · have every := (result.applied_append_kept_perm text).length_eq
    simp only [mended, violations, List.length_map]
    simpa using every
  · have left := result.countP_kept text
    rw [← skipped, List.length_map, ← left, LintResult.fixableCount]
    simp only [mended, violations, List.countP_map]
    rfl

section

variable [Host]

/-- Mending a file for a result. Without a source on disk, or if no change can be made, nothing is
written and the result stays as it is. Else the text with the changes made in it is written once, to
the source, and what is left of the result is what `LintResult.Leaves` says; only a failure to write
stops it, and a source that is a file takes the text if it may be written and there is room. -/
theorem mend_outcome (fs : FileSystem) (file : ParsedFile) (result : LintResult) :
    (file.sourcePath = none ∨
        (Fixing.apply Violation.fix file.source.text result.violations).applied = [] →
      mend fs file result = ⟨fs, .ok result⟩) ∧
    ∀ path, file.sourcePath = some path →
      (Fixing.apply Violation.fix file.source.text result.violations).applied ≠ [] →
      ∃ left, result.Leaves file.source.text left ∧
        mend fs file result =
          (let written := fs.writeText (Path.ofString path) (result.mendedText file.source.text)
          ⟨written.files, match written.result with
            | .error error => .error (.file error)
            | .ok () => .ok left⟩) ∧
        ∀ number access, fs.find (Path.ofString path) = .ok (.file number access) →
          access.write = true → fs.Takes number (result.mendedText file.source.text) →
          mend fs file result =
            ⟨fs.put number (Text.Utf8.encode (result.mendedText file.source.text)), .ok left⟩ := by
  obtain ⟨same, applied, -⟩ := result.mending_map file.source.text
  constructor
  · rintro (bare | none)
    · exact mend_of_bare bare
    · exact mend_of_idle (List.map_eq_nil_iff.mp (applied.trans none))
  · intro path source some
    have mends := mend_of_applied fs source fun none => some (by rw [← applied, none]; rfl)
    refine ⟨_, mended_leaves result file.source.text, same ▸ mends, ?_⟩
    intro number access found writable takes
    rw [mends, same, FileSystem.writeText_of_find found, if_pos writable,
      FileSystem.fill_of_takes takes]

end

attribute [local instance] Host.usual in
/-- Of two violations that say the same, and offer the same change, one is mended and one stays. -/
theorem mend_outcome_twins :
    let v : Violation := ⟨"no-unnecessary-curly-in-props", "unnecessaryCurly", "", some "a.tsx",
      .int 1, .int 0, .warn, [], some ⟨.int 0, .int 1, "b"⟩⟩
    let result : LintResult := ⟨some "a.tsx", [v, v], none, 0⟩
    let file : ParsedFile := ⟨some "a.tsx", ⟨['a'], ⟨"Program", []⟩, []⟩, some "a.tsx"⟩
    let fs : FileSystem := { entries := [("a.tsx", .file 0 {})], contents := [(0, [97])] }
    file.sourcePath = some "a.tsx" ∧
      (Fixing.apply Violation.fix file.source.text result.violations).applied ≠ [] ∧
      ∃ left, mend fs file result = ⟨{ fs with contents := [(0, [98])] }, .ok left⟩ ∧
        left.violations = [v] ∧ left.appliedFixes = 1 ∧ left.fixableCount = 1 := by
  intro v result file fs
  have mended : Fixing.apply Violation.fix file.source.text result.violations =
      ⟨['b'], [v], [v]⟩ := by
    simp [file, result, v, Fixing.apply, List.mergeSort,
      List.MergeSort.Internal.splitInTwo, Fixing.isBefore, Fixing.select, Fixing.fits,
      Ordinal.value, Fixing.splice, Text.slice, Text.clampOffset]
  have some : (Fixing.apply Violation.fix file.source.text result.violations).applied ≠ [] := by
    simp [mended]
  have found : fs.find (Path.ofString "a.tsx") = .ok (.file 0 {}) :=
    Layout.find_of_file? (by decide +kernel)
  have text : result.mendedText file.source.text = ['b'] := by
    rw [LintResult.mendedText, mended]
  obtain ⟨left, leaves, -, written⟩ := (mend_outcome fs file result).2 "a.tsx" rfl some
  refine ⟨rfl, some, left, ?_, ?_, ?_, ?_⟩
  · rw [written 0 {} found rfl (text ▸ ⟨by decide +kernel, by decide +kernel⟩), text]
    rfl
  · rw [leaves.violations]
    simp [LintResult.kept, LintResult.mending, file, result, v, Fixing.apply, List.zipIdx,
      List.mergeSort, List.MergeSort.Internal.splitInTwo, Fixing.isBefore, Fixing.select,
      Fixing.fits, Ordinal.value]
  · rw [leaves.appliedFixes, mended]
    rfl
  · rw [leaves.fixableCount, mended]
    rfl

end Check

end TreeLint
