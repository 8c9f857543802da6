import TreeLint.Load.Basic
import TreeLint.Proofs.Reporting

/-! What a load comes from. A file that was loaded has a document behind it, and its source, its
tree and the path of its text are those of the document. -/

namespace TreeLint

theorem mapError_ok_iff {ε ε' α : Type} {f : ε → ε'} {x : Except ε α} {a : α} :
    x.mapError f = .ok a ↔ x = .ok a := by
  cases x with
  | error e => exact ⟨nofun, nofun⟩
  | ok b =>
    constructor
    · rintro ⟨⟩
      rfl
    · rintro ⟨⟩
      rfl

variable [Host]

namespace Document

theorem readMembers_ok_iff {fs : FileSystem} {path : String} {members : Members} :
    readMembers fs path = .ok members ↔ ∃ text, fs.readText (Path.ofString path) = .ok text ∧
      Json.parse Host.documentLevels text = .ok (.object members) := by
  unfold readMembers
  constructor
  · intro made
    split at made
    · split at made
      · cases made
      · cases made
    · rename_i text read
      refine ⟨text, read, ?_⟩
      split at made
      · cases made
      · cases made
      · cases made
      · cases made
        assumption
      · cases made
  · rintro ⟨text, read, parsed⟩
    simp [read, parsed]

theorem read_ok_iff {fs : FileSystem} {path : String} {document : Document} :
    read fs path = .ok document ↔ ∃ members, readMembers fs path = .ok members ∧
      ofMembers path members = .ok document := by
  unfold read
  rw [bind_ok_iff]
  refine exists_congr fun members => and_congr_right fun _ => ?_
  cases ofMembers path members <;> simp [pure, Except.pure]

omit [Host] in
/-- The program of a document is the whole object or the `ast` in it. -/
theorem program_of_ofMembers {path : String} {members : Members} {document : Document}
    (made : ofMembers path members = .ok document) :
    document.program = members ∨ members.lookup "ast" = some (.object document.program) := by
  unfold ofMembers at made
  split at made
  · split at made
    · cases made
      exact .inl rfl
    · cases made
  · split at made
    · cases made
    · rename_i program found
      split at made
      · unfold ofEnvelope at made
        split at made
        · split at made
          · cases made
          · obtain ⟨text, -, given⟩ := bind_ok_iff.mp made
            cases given
            exact .inr found
        · cases made
      · cases made
    · cases made

end Document

theorem SourceCode.ofTree_ok {text : List Char} {root : Node} {source : SourceCode}
    (made : ofTree text root = .ok source) : source.text = text ∧ source.root = root := by
  obtain ⟨comments, -, given⟩ := bind_ok_iff.mp made
  cases given
  exact ⟨rfl, rfl⟩

theorem ParsedFile.load_ok_iff {fs : FileSystem} {path : String} {file : ParsedFile} :
    load fs path = .ok file ↔ ∃ document onDisk text root source,
      Document.read fs path = .ok document ∧
      fs.pathExists (Path.ofString document.sourcePath) = .ok onDisk ∧
      document.sourceText fs path onDisk = .ok text ∧
      Tree.root (.object document.program) = .ok root ∧
      SourceCode.ofTree text root = .ok source ∧
      file = ⟨some document.filename, source, if onDisk then some document.sourcePath else none⟩ := by
  unfold load
  simp only [bind_ok_iff, mapError_ok_iff, pure, Except.pure, Except.ok.injEq]
  constructor
  · rintro ⟨document, read, onDisk, there, text, told, root, rooted, source, made, rfl⟩
    exact ⟨document, onDisk, text, root, source, read, there, told, rooted, made, rfl⟩
  · rintro ⟨document, onDisk, text, root, source, read, there, told, rooted, made, rfl⟩
    exact ⟨document, read, onDisk, there, text, told, root, rooted, source, made, rfl⟩

end TreeLint
