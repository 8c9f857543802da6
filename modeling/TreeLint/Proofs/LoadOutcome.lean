import TreeLint.Proofs.Files
import TreeLint.Proofs.Serialized

/-! How loading ends. What is wrong with the files themselves is told as a problem of the document,
but what is wrong deeper inside stops the load: a value that cannot become a tree, a list of comments
that is none, a comment whose offsets are no numbers, an integer or a name that is too long. -/

namespace TreeLint

section

variable [Host]

section

variable {layout : Layout}

theorem Layout.step_failsOnly (path : String) (place : List String) (name : String) :
    FailsOnly (·.isOfText = false) (layout.step path place name) := by
  unfold step
  split
  · exact failsOnly_error rfl
  · split
    · exact failsOnly_error rfl
    · split
      · exact failsOnly_ok _
      · split
        · exact failsOnly_ok _
        · split
          · exact failsOnly_error rfl
          · exact failsOnly_ok _
  · exact failsOnly_error rfl

theorem Layout.advance_failsOnly (path : String) (place names : List String) :
    FailsOnly (·.isOfText = false) (layout.advance path place names) := by
  induction names generalizing place with
  | nil => exact failsOnly_ok _
  | cons name rest ih =>
    unfold advance
    refine failsOnly_bind.mpr ⟨step_failsOnly path place name, fun next _ => ?_⟩
    split
    · exact failsOnly_ok _
    · exact ih next

theorem Layout.walk_failsOnly (path : String) (links : Nat) (place names : List String) :
    FailsOnly (·.isOfText = false) (layout.walk path links place names) := by
  induction links generalizing place names with
  | zero =>
    unfold walk
    refine failsOnly_bind.mpr ⟨advance_failsOnly path place names, fun stop _ => ?_⟩
    cases stop with
    | place => exact failsOnly_ok _
    | link => exact failsOnly_error rfl
  | succ links ih =>
    unfold walk
    refine failsOnly_bind.mpr ⟨advance_failsOnly path place names, fun stop _ => ?_⟩
    cases stop with
    | place => exact failsOnly_ok _
    | link above target rest => exact ih _ _

variable {path : Path}

theorem Layout.isOfText_of_textError? {text : String} {error : FileError}
    (told : textError? text = some error) : error.isOfText = true := by
  unfold textError? at told
  split at told
  · cases told
    rfl
  · split at told
    · cases told
      rfl
    · cases told

/-- A path leads nowhere for its text just when no path reads so. -/
theorem Layout.locate_failsOnly_iff :
    FailsOnly (·.isOfText = false) (layout.locate path) ↔ textError? path.text = none := by
  unfold locate pathError?
  cases told : textError? path.text with
  | some error => simp [FailsOnly, isOfText_of_textError? told]
  | none =>
    refine iff_of_true ?_ rfl
    rw [Option.none_or]
    split
    · rename_i error long
      split at long
      · cases long
        exact failsOnly_error rfl
      · cases long
    · exact walk_failsOnly _ _ _ _

theorem Layout.find_failsOnly_iff :
    FailsOnly (·.isOfText = false) (layout.find path) ↔ textError? path.text = none := by
  rw [← @locate_failsOnly_iff _ layout]
  refine failsOnly_bind.trans (and_iff_left fun place _ => ?_)
  split
  · exact failsOnly_ok _
  · exact failsOnly_error rfl

end

namespace FileSystem

variable {fs : FileSystem} {path : Path}

theorem readBytes_failsOnly_iff :
    FailsOnly (·.isOfText = false) (fs.readBytes path) ↔ Layout.textError? path.text = none := by
  rw [← @Layout.find_failsOnly_iff _ fs.toLayout]
  refine failsOnly_bind.trans (and_iff_left fun entry _ => ?_)
  cases entry with
  | file number access =>
    dsimp only
    split
    · exact failsOnly_ok _
    · exact failsOnly_error rfl
  | directory access entries =>
    dsimp only
    split
    · exact failsOnly_error rfl
    · exact failsOnly_error rfl
  | link target => exact failsOnly_error rfl

/-- A file cannot be read for the text of its path just when no path reads so. -/
theorem readText_failsOnly_iff : FailsOnly (·.isOfText = false) (fs.readText path) ↔
    Layout.textError? path.text = none := by
  rw [← @readBytes_failsOnly_iff _ fs]
  refine failsOnly_bind.trans (and_iff_left fun bytes _ => ?_)
  split
  · exact failsOnly_ok _
  · exact failsOnly_error rfl

end FileSystem

namespace Document

/-- The text of the source is found: the document holds it, it is read from the disk, or there is
no source. -/
def Sourced (fs : FileSystem) (path : String) (document : Document) : Prop :=
  ∃ onDisk text, fs.pathExists (Path.ofString document.sourcePath) = .ok onDisk ∧
    document.sourceText fs path onDisk = .ok text

end Document

/-- The failure is a problem of the document at a path. -/
def Failure.IsProblemOf (path : String) (failure : Failure) : Prop :=
  ∃ problem, failure = .load path problem

/-- At a path there is nothing that a load cannot tell as a problem of the document. -/
structure Orderly (fs : FileSystem) (path : String) : Prop where
  /-- The path can be one of a file. -/
  named : Layout.textError? (Path.ofString path).text = none
  /-- No integer of the document is too long. -/
  integers : ∀ text, fs.readText (Path.ofString path) = .ok text →
    ∀ digits, Json.parse Host.documentLevels text ≠ .error (.longInteger digits)
  /-- It can be told whether the source is there: no name in its path is too long, nor that path as a
  whole, and one may go on from each directory on the way. -/
  source : ∀ document, Document.read fs path = .ok document → ∀ error,
    fs.find (Path.ofString document.sourcePath) = .error error → error.escapes = false
  /-- The program becomes a tree. -/
  tree : ∀ document, Document.read fs path = .ok document → document.Sourced fs path →
    ∃ type, Tree.Roots document.program type
  /-- The comments can be read. -/
  comments : ∀ document, Document.read fs path = .ok document → document.Sourced fs path →
    Comment.Listing ((document.program.lookup "comments").getD .null)

section

variable {fs : FileSystem} {path : String}

theorem failsOnly_readMembers : FailsOnly (Failure.IsProblemOf path) (Document.readMembers fs path) ↔
    Layout.textError? (Path.ofString path).text = none ∧
      ∀ text, fs.readText (Path.ofString path) = .ok text →
        ∀ digits, Json.parse Host.documentLevels text ≠ .error (.longInteger digits) := by
  rw [← @FileSystem.readText_failsOnly_iff _ fs]
  unfold Document.readMembers
  cases read : fs.readText (Path.ofString path) with
  | error error =>
    cases text : error.isOfText <;> simp [FailsOnly, Failure.IsProblemOf, text]
  | ok text =>
    cases parsed : Json.parse Host.documentLevels text with
    | error error => cases error <;> simp [FailsOnly, Failure.IsProblemOf, parsed]
    | ok v => cases v <;> simp [FailsOnly, Failure.IsProblemOf, parsed]

theorem failsOnly_read : FailsOnly (Failure.IsProblemOf path) (Document.read fs path) ↔
    FailsOnly (Failure.IsProblemOf path) (Document.readMembers fs path) := by
  unfold Document.read
  rw [failsOnly_bind]
  refine and_iff_left fun members _ => ?_
  split
  · exact failsOnly_ok _
  · simp [FailsOnly, Failure.IsProblemOf]

theorem failsOnly_sourceText (document : Document) (onDisk : Bool) :
    FailsOnly (Failure.IsProblemOf path) (document.sourceText fs path onDisk) := by
  unfold Document.sourceText
  split
  · exact failsOnly_ok _
  · split
    · split
      · exact failsOnly_ok _
      · simp [FailsOnly, Failure.IsProblemOf]
    · exact failsOnly_ok _

/-- The tree and the comments of a document are made just when the program becomes a tree and the
comments can be read. -/
theorem source_ok_iff (members : Members) (text : List Char) :
    ((∃ root, Tree.root (.object members) = .ok root) ∧
      ∀ root, Tree.root (.object members) = .ok root →
        ∃ source, SourceCode.ofTree text root = .ok source) ↔
    (∃ type, Tree.Roots members type) ∧
      Comment.Listing ((members.lookup "comments").getD .null) := by
  have rooted : (∃ root, Tree.root (.object members) = .ok root) ↔
      ∃ type, Tree.Roots members type := by
    simp [Tree.root_ok_iff]
  rw [rooted]
  refine and_congr_right fun roots => ?_
  obtain ⟨root, made⟩ := rooted.mpr roots
  have comments := Comment.ofRoot_ok_iff (Tree.root_comments made)
  have source : (∃ source, SourceCode.ofTree text root = .ok source) ↔
      ∃ comments, Comment.ofRoot root = .ok comments := by
    unfold SourceCode.ofTree
    rw [exists_bind_ok_iff]
    simp [Pure.pure, Except.pure]
  rw [← comments, ← source]
  -- there is one root, so what holds of every root holds of this one
  constructor
  · intro each
    exact each root made
  · intro here other same
    rw [made, Except.ok.injEq] at same
    exact same ▸ here

/-- After its document is read, a load goes well unless it cannot be told whether the source is there,
the program becomes no tree, or the comments cannot be read. -/
theorem failsOnly_load : FailsOnly (Failure.IsProblemOf path) (ParsedFile.load fs path) ↔
    FailsOnly (Failure.IsProblemOf path) (Document.read fs path) ∧
      ∀ document, Document.read fs path = .ok document →
        (∃ onDisk, fs.pathExists (Path.ofString document.sourcePath) = .ok onDisk) ∧
        (document.Sourced fs path → (∃ type, Tree.Roots document.program type) ∧
          Comment.Listing ((document.program.lookup "comments").getD .null)) := by
  have file (error : FileError) : ¬ Failure.IsProblemOf path (.file error) := by
    rintro ⟨problem, same⟩
    cases same
  have fault (error : Fault) : ¬ Failure.IsProblemOf path (.fault error) := by
    rintro ⟨problem, same⟩
    cases same
  unfold ParsedFile.load
  rw [failsOnly_bind]
  refine and_congr_right fun _ => forall_congr' fun document => imp_congr_right fun read => ?_
  obtain ⟨members, -, made⟩ := Document.read_ok_iff.mp read
  rw [failsOnly_bind, failsOnly_mapError, failsOnly_of_never file]
  refine and_congr_right fun _ => ?_
  have rest (onDisk : Bool) (text : List Char) : FailsOnly (Failure.IsProblemOf path) (do
        let root ← (Tree.root (.object document.program)).mapError Failure.fault
        let source ← (SourceCode.ofTree text root).mapError .fault
        return ({ filename := some document.filename, source
                  sourcePath := if onDisk then some document.sourcePath else none } :
          ParsedFile)) ↔
      (∃ type, Tree.Roots document.program type) ∧
        Comment.Listing ((document.program.lookup "comments").getD .null) := by
    rw [← source_ok_iff document.program text, failsOnly_bind, failsOnly_mapError,
      failsOnly_of_never fault]
    simp only [mapError_ok_iff, failsOnly_bind, failsOnly_mapError, failsOnly_of_never fault]
    refine and_congr_right fun _ => forall_congr' fun root => imp_congr_right fun _ => ?_
    exact and_iff_left fun source _ => failsOnly_ok _
  simp only [mapError_ok_iff, failsOnly_bind (x := document.sourceText fs path _),
    failsOnly_sourceText, true_and, rest]
  constructor
  · rintro each ⟨onDisk, text, there, told⟩
    exact each onDisk there text told
  · intro each onDisk there text told
    exact each ⟨onDisk, text, there, told⟩

/-- A load gives a file or tells a problem of the document just when nothing is wrong at the path
that cannot be told so. -/
theorem load_outcome (fs : FileSystem) (path : String) :
    ((∃ file, ParsedFile.load fs path = .ok file) ∨
      ∃ problem, ParsedFile.load fs path = .error (.load path problem)) ↔ Orderly fs path := by
  have told : ((∃ file, ParsedFile.load fs path = .ok file) ∨
      ∃ problem, ParsedFile.load fs path = .error (.load path problem)) ↔
      FailsOnly (Failure.IsProblemOf path) (ParsedFile.load fs path) := by
    simp [failsOnly_iff, Failure.IsProblemOf]
  rw [told, failsOnly_load, failsOnly_read, failsOnly_readMembers]
  simp only [Layout.pathExists_ok_iff]
  constructor
  · rintro ⟨⟨named, integers⟩, each⟩
    exact ⟨named, integers, fun document read => (each document read).1,
      fun document read sourced => ((each document read).2 sourced).1,
      fun document read sourced => ((each document read).2 sourced).2⟩
  · intro orderly
    refine ⟨⟨orderly.named, orderly.integers⟩, fun document read => ?_⟩
    exact ⟨orderly.source document read, fun sourced =>
      ⟨orderly.tree document read sourced, orderly.comments document read sourced⟩⟩

end

end

def numberedFiles : FileSystem where
  entries := [("a.tsx.json", .file 0 {})]
  contents := [(0, Text.Utf8.encode
    "\x7b\x22type\x22:\x22Program\x22,\x22comments\x22:5\x7d".toList)]

attribute [local instance] Host.usual in
/-- Comments that are a number stop a load, and no problem of the document is told. -/
theorem load_stops : ¬ ∀ (fs : FileSystem) (path : String),
    (∃ file, ParsedFile.load fs path = .ok file) ∨
      ∃ problem, ParsedFile.load fs path = .error (.load path problem) := by
  intro claim
  have stopped : (match ParsedFile.load numberedFiles "a.tsx.json" with
      | .error (.fault fault) => some fault
      | _ => none) = some .wrongKind := by
    decide +kernel
  rcases claim numberedFiles "a.tsx.json" with ⟨file, loaded⟩ | ⟨problem, refused⟩
  · rw [loaded] at stopped
    cases stopped
  · rw [refused] at stopped
    cases stopped

end TreeLint
