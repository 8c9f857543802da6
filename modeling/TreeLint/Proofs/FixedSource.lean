import TreeLint.Proofs.CheckSteps

/-! Sources that are fixed through a tree beside them. The text of such a source is read from disk,
with line feeds for its line ends, while the offsets in the tree are those of the text on disk. What
is written is the text that was read with the changes made in it; that is the text on disk with the
changes made in it just when no carriage return stands outside of the changes. -/

namespace TreeLint.Check

section

variable [Host]

namespace Step

variable {step : Step} {document : Document} {number : Nat} {text : List Char} {file : ParsedFile}

/-- Without a text in the document, what is on disk is read, with line feeds for its line ends. -/
theorem text_of_bare (named : step.Names document number) (bare : document.text = none)
    (held : step.before.bytes number = Text.Utf8.encode text)
    (loaded : ParsedFile.load step.before step.target.path = .ok file) :
    file.source.text = Text.withLineFeeds text ∧ file.sourcePath = some document.sourcePath := by
  obtain ⟨other, onDisk, told, root, source, read, there, given, -, made, rfl⟩ :=
    ParsedFile.load_ok_iff.mp loaded
  obtain rfl := Except.ok.inj (named.1.symm.trans read)
  obtain ⟨access, found⟩ := named.2
  obtain rfl := Except.ok.inj ((Layout.pathExists_of_find found).symm.trans there)
  refine ⟨(SourceCode.ofTree_ok made).1.trans ?_, rfl⟩
  -- the load went well, so the source could be read
  simp only [Document.sourceText, bare, if_true] at given
  split at given
  · rename_i inside readText
    cases given
    obtain ⟨bytes, readBytes, -⟩ := bind_ok_iff.mp readText
    obtain ⟨other, again, same, readable⟩ := FileSystem.readable_of_readBytes readBytes
    cases found.symm.trans same
    have bytes := FileSystem.readBytes_of_find found readable
    rw [held] at bytes
    exact Except.ok.inj (readText.symm.trans (FileSystem.readText_of_bytes bytes))
  · cases given

theorem mends_of_finds {result : LintResult} (finds : step.Finds file result)
    (busy : step.changes ≠ []) :
    Mends 0 file.source.text step.changes (result.mendedText file.source.text) := by
  rw [changes_of_finds finds] at busy ⊢
  split at busy
  · rw [if_pos (by assumption)]
    exact Fixing.apply_mends Violation.fix _ result.violations
  · exact absurd rfl busy

/-- A step that makes changes leaves the text with the changes in the source of its target. If it
fails, the source is as it was or holds a beginning of that. -/
theorem bytes_after_of_finds {result : LintResult} (named : step.Names document number)
    (finds : step.Finds file result) (source : file.sourcePath = some document.sourcePath)
    (busy : step.changes ≠ []) :
    ((∃ found, step.outcome.result = .ok found) → step.after.bytes number =
        Text.Utf8.encode (result.mendedText file.source.text)) ∧
      (step.after.bytes number = step.before.bytes number ∨
        step.after.bytes number <+: Text.Utf8.encode (result.mendedText file.source.text)) := by
  obtain ⟨access, found⟩ := named.2
  have writes := FileSystem.writeText_of_find found (result.mendedText file.source.text)
  split at writes
  · obtain ⟨kept, writes⟩ := writes_of_fill finds source busy named writes
    rw [writes.after, FileSystem.bytes_put, if_pos rfl]
    refine ⟨?_, .inr writes.start⟩
    rintro ⟨found, passes⟩
    rcases writes.all with ⟨error, failed⟩ | ⟨-, all⟩
    · cases passes.symm.trans failed
    · exact all
  · -- one may not write there
    obtain ⟨left, ends⟩ := outcome_of_changes finds source busy
    rw [after, ends, writes]
    refine ⟨?_, .inl rfl⟩
    rintro ⟨found, passes⟩
    cases passes

/-- A step whose target has no text for its source makes its changes in what it read. If it fails, the
source is as it was or holds a beginning of that. -/
theorem bytes_after_bare (named : step.Names document number) (bare : document.text = none)
    (held : step.before.bytes number = Text.Utf8.encode text) :
    ∃ left,
      ((∃ found, step.outcome.result = .ok found) →
        step.after.bytes number = Text.Utf8.encode left) ∧
      (step.after.bytes number = Text.Utf8.encode text ∨
        step.after.bytes number <+: Text.Utf8.encode left) ∧
      (step.changes = [] → left = text) ∧
      (step.changes ≠ [] → Mends 0 (Text.withLineFeeds text) step.changes left) := by
  by_cases idle : step.changes = []
  · -- nothing is changed, and then nothing is written
    have same : step.after = step.before := by
      rcases step.after_eq_or with same | ⟨_, _, _, _, writes⟩
      · exact same
      · exact absurd idle writes.changes
    rw [same, held]
    exact ⟨text, fun _ => rfl, .inl rfl, fun _ => rfl, absurd idle⟩
  · obtain ⟨file, result, finds⟩ : ∃ file result, step.Finds file result := by
      by_contra none
      exact idle (changes_of_not_finds fun file result finds => none ⟨file, result, finds⟩)
    obtain ⟨told, source⟩ := text_of_bare named bare held finds.1
    obtain ⟨all, begins⟩ := bytes_after_of_finds named finds source idle
    rw [held] at begins
    exact ⟨_, all, begins, fun none => absurd none idle, fun busy => told ▸ mends_of_finds finds busy⟩

end Step

/-- A source that one target of a run names, without a text for it, holds afterwards what was read
with the changes made in it, unless the check of the target fails: then the source is as it was, or
holds a beginning of that. What was read with the changes made in it is what was on disk with the same
changes made in it just when there are no changes, or every carriage return stands alone and within a
change. -/
theorem fixed_source (order : Order) (fs : FileSystem) (number : Nat) (text : List Char)
    (held : fs.bytes number = Text.Utf8.encode text) (earlier later : List Step)
    (step : Step) (steps : order.steps fs = earlier ++ step :: later) (document : Document)
    (named : step.Names document number) (bare : document.text = none)
    (once : ∀ other ∈ earlier ++ later, ∀ document, ¬ other.Names document number) :
    ∃ left,
      ((∃ found, step.outcome.result = .ok found) →
        (order.run fs).files.bytes number = Text.Utf8.encode left) ∧
      ((order.run fs).files.bytes number = Text.Utf8.encode text ∨
        (order.run fs).files.bytes number <+: Text.Utf8.encode left) ∧
      (step.changes = [] → left = text) ∧
      (step.changes ≠ [] → Mends 0 (Text.withLineFeeds text) step.changes left) ∧
      (Mends 0 text step.changes left ↔ step.changes = [] ∨ ∀ i : Nat, text[i]? = some '\r' →
        text[i + 1]? ≠ some '\n' ∧ ∃ f ∈ step.changes, f.Covers i) := by
  have chain := Chain.steps order fs
  rw [steps] at chain
  obtain ⟨before, after⟩ := chain.split
  obtain ⟨first, last⟩ := List.forall_mem_append.mp once
  rw [after.frame last]
  obtain ⟨left, holds, begins, kept, mends⟩ :=
    Step.bytes_after_bare named bare ((before.frame first).trans held)
  refine ⟨left, holds, begins, kept, mends, ?_⟩
  by_cases none : step.changes = []
  · rw [kept none, none]
    exact ⟨fun _ => .inl rfl, fun _ => .rest 0 text⟩
  · rw [(mends none).congr_iff text, Mends.agree_withLineFeeds_iff]
    exact ⟨.inr, fun either => either.resolve_left none⟩

end

/-- The tree of a short source. One attribute, from the sixth character on, has braces that it does
not need. -/
def curlyTree : List Char :=
  "\x7b\"type\":\"Program\",\"body\":[\x7b\"type\":".toList ++
    "\"JSXAttribute\",\"value\":\x7b\"type\":".toList ++
    "\"JSXExpressionContainer\",\"range\":[6,11],".toList ++
    "\"expression\":\x7b\"type\":\"Literal\",".toList ++
    "\"value\":\"x\",\"raw\":\"'x'\"\x7d\x7d\x7d]\x7d".toList

def curlySource : String := "<I \nn=\x7b'x'\x7d/>"

/-- A source with its tree beside it, and the same tree in an envelope without a text. -/
def curlyFiles (source : String) : FileSystem where
  entries := [("a.tsx", .file 0 {}), ("a.tsx.json", .file 1 {}), ("b.json", .file 2 {})]
  contents :=
    [(0, Text.Utf8.encode source.toList), (1, Text.Utf8.encode curlyTree),
     (2, Text.Utf8.encode
       ("\x7b\"filePath\":\"a.tsx\",\"ast\":".toList ++ curlyTree ++ "\x7d".toList))]

/-- An order to fix sources with braces that they do not need. -/
def curlyOrder (paths : List String) : Order where
  config := ⟨[], [("no-unnecessary-curly-in-props", ⟨.warn, []⟩)]⟩
  paths := paths
  fix := true
  cwd := none

/-- A source with a carriage return, checked through the tree beside it. -/
def returnStep : Step :=
  ⟨curlyOrder ["a.tsx.json"], ⟨"a.tsx.json", false⟩, curlyFiles "<I\r\nn=\x7b'x'\x7d/>"⟩

attribute [local instance] Host.usual

theorem returnSteps : returnStep.order.steps returnStep.before = [] ++ returnStep :: [] :=
  steps_of_single (by decide +kernel)

theorem returnStep_names :
    ∃ document, returnStep.Names document 0 ∧ document.text = none := by
  have read : (Document.read returnStep.before "a.tsx.json").toOption.any (fun document =>
      document.text.isNone &&
        (returnStep.before.find (Path.ofString document.sourcePath)).toOption.bind Entry.file? ==
          some (0, {})) = true := by
    decide +kernel
  obtain ⟨document, given, read⟩ := exists_ok_of_any read
  simp only [Bool.and_eq_true, Option.isNone_iff_eq_none, beq_iff_eq] at read
  exact ⟨document, ⟨given, {}, Layout.find_of_file? read.2⟩, read.1⟩

/-- The source with a carriage return is not what was on disk with the changes made in it. -/
theorem fixed_source_return :
    ∃ left, (returnStep.order.run returnStep.before).files.bytes 0 = Text.Utf8.encode left ∧
      (Mends 0 "<I\r\nn=\x7b'x'\x7d/>".toList returnStep.changes left ↔ returnStep.changes = [] ∨
        ∀ i : Nat, "<I\r\nn=\x7b'x'\x7d/>".toList[i]? = some '\r' →
          "<I\r\nn=\x7b'x'\x7d/>".toList[i + 1]? ≠ some '\n' ∧
            ∃ f ∈ returnStep.changes, f.Covers i) := by
  obtain ⟨document, named, bare⟩ := returnStep_names
  have passes : returnStep.outcome.result.toOption.isSome = true := by decide +kernel
  obtain ⟨left, held, -, -, -, same⟩ := fixed_source returnStep.order returnStep.before 0
    "<I\r\nn=\x7b'x'\x7d/>".toList (by decide +kernel) [] [] returnStep returnSteps document named
    bare (List.forall_mem_nil _)
  exact ⟨left, held (exists_ok_of_isSome passes), same⟩

set_option maxRecDepth 100000 in
/-- A source that is named once, without a text for it, need not be what was on disk with the changes
made in it: a carriage return before the change moves the change. -/
theorem source_not_fixed :
    ¬ ∀ (order : Order) (fs : FileSystem) (number : Nat) (text : List Char)
      (earlier later : List Step) (step : Step) (document : Document),
      fs.bytes number = Text.Utf8.encode text →
      order.steps fs = earlier ++ step :: later → step.Names document number →
      document.text = none →
      (∀ other ∈ earlier ++ later, ∀ document, ¬ other.Names document number) →
      ∃ left, (order.run fs).files.bytes number = Text.Utf8.encode left ∧
        Mends 0 text step.changes left := by
  intro claim
  obtain ⟨document, named, bare⟩ := returnStep_names
  obtain ⟨left, held, mends⟩ := claim returnStep.order returnStep.before 0
    "<I\r\nn=\x7b'x'\x7d/>".toList [] [] returnStep document (by decide +kernel) returnSteps named bare
    (List.forall_mem_nil _)
  have written : (returnStep.order.run returnStep.before).files.bytes 0 =
      Text.Utf8.encode "<I\nn=\x7b'x'>".toList := by
    decide +kernel
  have changes : returnStep.changes = [⟨.int 6, .int 11, "'x'"⟩] := by decide +kernel
  rw [written] at held
  obtain rfl := Text.Utf8.encode_injective held
  rw [changes] at mends
  exact absurd mends.length (by decide)

end TreeLint.Check
