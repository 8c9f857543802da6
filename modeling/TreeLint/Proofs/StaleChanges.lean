import TreeLint.Proofs.FixedSource

/-! Changes and the text that they are for. The offsets of a change are those of the text for which
the tree was made. Runs over the same trees keep a source as it was or as it is once mended, or as far
as that could be written, so long as no changes are made in what was read from disk after it was
rewritten; these would be made at places that have moved. -/

namespace TreeLint

section

variable [Host]

/-- What is read at a path is a matter of the layout and of the file to which the path leads. -/
theorem FileSystem.readBytes_congr {one two : FileSystem} {path : Path} {number : Nat}
    (alike : one.toLayout = two.toLayout) (leads : one.Leads path number)
    (same : one.bytes number = two.bytes number) : one.readBytes path = two.readBytes path := by
  obtain ⟨access, found⟩ := leads
  unfold readBytes
  rw [← alike, found, ok_bind, ok_bind]
  dsimp only
  rw [same]

/-- A document is read from its bytes, whatever else there is. -/
theorem Document.read_congr {one two : FileSystem} {path : String}
    (same : one.readBytes (Path.ofString path) = two.readBytes (Path.ofString path)) :
    Document.read one path = Document.read two path := by
  unfold read readMembers FileSystem.readText
  rw [same]

theorem Document.sourceText_congr {one two : FileSystem} {document : Document}
    (same : one.readBytes (Path.ofString document.sourcePath) =
      two.readBytes (Path.ofString document.sourcePath)) (path : String) (onDisk : Bool) :
    document.sourceText one path onDisk = document.sourceText two path onDisk := by
  unfold sourceText FileSystem.readText
  rw [same]

namespace Check

/-- Orders meet a source as the trees were made for it: the text is on disk, without carriage
returns; documents that hold a text for it hold this one; and the documents do not change. -/
structure Undisturbed (fs : FileSystem) (orders : List Order) (number : Nat)
    (text : List Char) : Prop where
  held : fs.bytes number = Text.Utf8.encode text
  plain : '\r' ∉ text
  told : ∀ step ∈ history fs orders, ∀ document told,
    Document.read fs step.target.path = .ok document →
    fs.Leads (Path.ofString document.sourcePath) number →
    document.text = some told → told.toList = text
  unchanged : ∀ step ∈ history fs orders,
    step.before.readBytes (Path.ofString step.target.path) =
      fs.readBytes (Path.ofString step.target.path)

/-- A target of some orders names a source, and a result is what a check of it finds at first, in a
text that the source has. -/
structure Suits (fs : FileSystem) (step : Step) (number : Nat) (text : List Char)
    (result : LintResult) : Prop where
  names : ∃ document, Document.read fs step.target.path = .ok document ∧
    fs.Leads (Path.ofString document.sourcePath) number
  finds : ∃ file, ParsedFile.load fs step.target.path = .ok file ∧ file.source.text = text ∧
    Lint.run step.order.config file step.order.cwd = .ok result

/-- A source is as it was at first, or mended for what is found in it through one of the targets that
name it, or it holds a beginning of that after a check that failed. -/
def Settled (fs : FileSystem) (orders : List Order) (number : Nat) (text : List Char)
    (files : FileSystem) : Prop :=
  files.bytes number = Text.Utf8.encode text ∨
    ∃ step ∈ history fs orders, ∃ result, Suits fs step number text result ∧
      (files.bytes number = Text.Utf8.encode (result.mendedText text) ∨
        (∃ failure, step.outcome.result = .error failure) ∧
          files.bytes number <+: Text.Utf8.encode (result.mendedText text))

variable {fs : FileSystem} {orders : List Order} {number : Nat} {text : List Char}

/-- A target that names a source whose text it tells, or that is still as it was, is loaded as it
would have been at first. -/
theorem Undisturbed.suits (undisturbed : Undisturbed fs orders number text) {step : Step}
    (member : step ∈ history fs orders) (alike : step.before.toLayout = fs.toLayout)
    {document : Document} (named : step.Names document number)
    (fresh : document.text = none → step.before.bytes number = fs.bytes number)
    {file : ParsedFile} {result : LintResult} (finds : step.Finds file result) :
    Suits fs step number text result ∧ file.source.text = text := by
  have readSame := Document.read_congr (undisturbed.unchanged step member)
  have read := readSame.symm.trans named.1
  have leads : fs.Leads (Path.ofString document.sourcePath) number := alike ▸ named.2
  obtain ⟨other, onDisk, told, root, source, again, there, given, rooted, made, rfl⟩ :=
    ParsedFile.load_ok_iff.mp finds.1
  obtain rfl := Except.ok.inj (named.1.symm.trans again)
  obtain ⟨access, found⟩ := named.2
  obtain rfl := Except.ok.inj ((Layout.pathExists_of_find found).symm.trans there)
  have code := (SourceCode.ofTree_ok made).1
  -- a text that the document tells is the right one; a text on disk is still what it was
  have first : document.sourceText fs step.target.path true = .ok told ∧ source.text = text := by
    cases holds : document.text with
    | some inner =>
      have same := undisturbed.told step member document inner read leads holds
      simp only [Document.sourceText, holds, Except.ok.injEq] at given ⊢
      exact ⟨given, (code.trans given.symm).trans same⟩
    | none =>
      have held := (fresh holds).trans undisturbed.held
      have bytes := FileSystem.readBytes_congr alike named.2 (fresh holds)
      rw [← Document.sourceText_congr bytes]
      refine ⟨given, (Step.text_of_bare named holds held finds.1).1.trans ?_⟩
      exact Text.withLineFeeds_eq_self undisturbed.plain
  rw [alike] at there
  have loaded := ParsedFile.load_ok_iff.mpr
    ⟨document, true, told, root, source, read, there, first.1, rooted, made, rfl⟩
  exact ⟨⟨⟨document, read, leads⟩, _, loaded, first.2, finds.2⟩, first.2⟩

/-- A step keeps a source settled, if it makes no changes in what it read after it was rewritten. -/
theorem Undisturbed.settled_step (undisturbed : Undisturbed fs orders number text) {step : Step}
    (member : step ∈ history fs orders) (alike : step.before.toLayout = fs.toLayout)
    (fresh : ∀ document, step.Names document number → step.changes ≠ [] → document.text = none →
      step.before.bytes number = fs.bytes number)
    (settled : Settled fs orders number text step.before) :
    Settled fs orders number text step.after := by
  unfold Settled at settled ⊢
  rcases step.after_eq_or with same | ⟨other, file, result, kept, writes⟩
  · rwa [same]
  · rw [writes.after, FileSystem.bytes_put]
    split
    · rename_i here
      subst here
      obtain ⟨document, named⟩ := writes.names
      obtain ⟨suits, told⟩ :=
        undisturbed.suits member alike named (fresh document named writes.changes) writes.finds
      have start := writes.start
      have all := writes.all
      rw [told] at start all
      refine .inr ⟨step, member, result, suits, ?_⟩
      rcases all with ⟨error, failed⟩ | ⟨-, all⟩
      · exact .inr ⟨⟨_, failed⟩, start⟩
      · exact .inl all
    · exact settled

/-- Changes are not made at places that have moved, so long as none are made in a source that was
read from disk after it was rewritten: whatever the orders, at every moment a source is as it was at
first or as mending leaves it for what is found through one target. -/
theorem settled_of_fresh (fs : FileSystem) (orders : List Order) (number : Nat)
    (text : List Char) (undisturbed : Undisturbed fs orders number text)
    (fresh : ∀ step ∈ history fs orders, ∀ document, step.Names document number →
      step.changes ≠ [] → document.text = none → step.before.bytes number = fs.bytes number) :
    (∀ step ∈ history fs orders,
      Settled fs orders number text step.before ∧ Settled fs orders number text step.after) ∧
    Settled fs orders number text
      (orders.foldl (fun files order => (order.run files).files) fs) := by
  have kept : ∀ step ∈ history fs orders,
      step.before.toLayout = fs.toLayout ∧ Settled fs orders number text step.before →
      step.after.toLayout = fs.toLayout ∧ Settled fs orders number text step.after := by
    rintro step member ⟨alike, settled⟩
    exact ⟨step.after_toLayout.trans alike,
      undisturbed.settled_step member alike (fresh step member) settled⟩
  obtain ⟨each, last⟩ := (Chain.history fs orders).invariant
    (P := fun files => files.toLayout = fs.toLayout ∧ Settled fs orders number text files)
    ⟨rfl, .inl undisturbed.held⟩ kept
  exact ⟨fun step member => ⟨(each step member).1.2, (each step member).2.2⟩, last.2⟩

/-- What mending a text through a target would leave, if something is found there. -/
def Step.mended? (step : Step) (fs : FileSystem) (text : List Char) : Option (List Char) :=
  match ParsedFile.load fs step.target.path with
  | .error _ => none
  | .ok file => match Lint.run step.order.config file step.order.cwd with
    | .error _ => none
    | .ok result => some (result.mendedText text)

theorem Step.mended?_of_suits {step : Step} {result : LintResult}
    (suits : Suits fs step number text result) :
    step.mended? fs text = some (result.mendedText text) := by
  obtain ⟨file, loaded, -, ran⟩ := suits.finds
  unfold Step.mended?
  simp only [loaded, ran]

end Check

end

namespace Check

attribute [local instance] Host.usual

/-- The source with its tree beside it, and an envelope that holds its text and names it from the
root. -/
def toldFiles : FileSystem :=
  let files := curlyFiles curlySource
  let source := "\"<I \x5cnn=\x7b'x'\x7d/>\""
  let start := "\x7b\"filePath\":\"/a.tsx\",\"source\":" ++ source ++ ",\"ast\":"
  { files with
    entries := files.entries ++ [("c.json", .file 3 {})]
    contents := files.contents ++
      [(3, Text.Utf8.encode (start.toList ++ curlyTree ++ "\x7d".toList))] }

/-- A check of the tree and the envelope, and then one of the envelope by two of its names. -/
def toldOrders : List Order :=
  [curlyOrder ["a.tsx.json", "c.json"], curlyOrder ["c.json", "/c.json"]]

/-- A source that is rewritten again and again, but not for what is read from it later, is as it was or
mended once. -/
theorem settled_of_fresh_told :
    (history toldFiles toldOrders).map (·.target.path) =
        ["a.tsx.json", "c.json", "c.json", "/c.json"] ∧
      (history toldFiles toldOrders).all (·.changes.length == 1) = true ∧
      Settled toldFiles toldOrders 0 curlySource.toList
        (toldOrders.foldl (fun files order => (order.run files).files) toldFiles) := by
  have every : ((history toldFiles toldOrders).map (·.target.path) =
        ["a.tsx.json", "c.json", "c.json", "/c.json"] ∧
      (history toldFiles toldOrders).all (·.changes.length == 1) = true) ∧
      (history toldFiles toldOrders).all (fun step =>
      (Document.read toldFiles step.target.path).toOption.all (fun document =>
        document.text.all (·.toList == curlySource.toList) &&
          (document.text.isSome || step.before.bytes 0 == toldFiles.bytes 0)) &&
      decide (step.before.readBytes (Path.ofString step.target.path) =
        toldFiles.readBytes (Path.ofString step.target.path))) = true := by
    decide +kernel
  obtain ⟨⟨paths, changes⟩, each⟩ := every
  simp only [List.all_eq_true, Bool.and_eq_true, decide_eq_true_eq] at each
  refine ⟨paths, changes, (settled_of_fresh toldFiles toldOrders 0
    curlySource.toList ⟨by decide +kernel, by decide, ?_, fun step member => (each step member).2⟩
    ?_).2⟩
  · intro step member document told read _ holds
    have right := (each step member).1
    rw [read] at right
    simp only [Except.toOption, Option.all_some, holds, Bool.and_eq_true, beq_iff_eq] at right
    exact right.1
  · intro step member document named _ bare
    have right := (each step member).1
    rw [← Document.read_congr (each step member).2, named.1] at right
    simpa [Except.toOption, bare] using right

set_option maxRecDepth 100000 in
/-- Two targets that name one source, neither of which tells its text, make changes on top of each
other. -/
theorem not_settled :
    ¬ ∀ (fs : FileSystem) (orders : List Order) (number : Nat) (text : List Char),
      Undisturbed fs orders number text →
      (∀ step ∈ history fs orders,
        Settled fs orders number text step.before ∧ Settled fs orders number text step.after) ∧
      Settled fs orders number text
        (orders.foldl (fun files order => (order.run files).files) fs) := by
  intro claim
  have every : ((curlyOrder ["a.tsx.json", "b.json"]).run (curlyFiles curlySource)).files.bytes 0 =
      Text.Utf8.encode "<I \nn='x'".toList ∧
      (history (curlyFiles curlySource) [curlyOrder ["a.tsx.json", "b.json"]]).all (fun step =>
        (Document.read (curlyFiles curlySource) step.target.path).toOption.all (·.text.isNone) &&
        decide (step.before.readBytes (Path.ofString step.target.path) =
          (curlyFiles curlySource).readBytes (Path.ofString step.target.path)) &&
        step.outcome.result.toOption.isSome &&
        (step.mended? (curlyFiles curlySource) curlySource.toList).all
          (· != "<I \nn='x'".toList)) = true := by
    decide +kernel
  obtain ⟨written, each⟩ := every
  simp only [List.all_eq_true, Bool.and_eq_true, decide_eq_true_eq] at each
  have undisturbed : Undisturbed (curlyFiles curlySource) [curlyOrder ["a.tsx.json", "b.json"]] 0
      curlySource.toList := by
    refine ⟨by decide +kernel, by decide, ?_, fun step member => (each step member).1.1.2⟩
    intro step member document told read _ holds
    have bare := (each step member).1.1.1
    rw [read] at bare
    simp [Except.toOption, holds] at bare
  have final := (claim (curlyFiles curlySource) [curlyOrder ["a.tsx.json", "b.json"]] 0 _
    undisturbed).2
  rw [List.foldl_cons, List.foldl_nil] at final
  unfold Settled at final
  rw [written] at final
  rcases final with same | ⟨step, member, result, suits, same | ⟨⟨failure, failed⟩, -⟩⟩
  · exact absurd (Text.Utf8.encode_injective same) (by decide)
  · have other := (each step member).2
    rw [Step.mended?_of_suits suits, ← Text.Utf8.encode_injective same, Option.all_some,
      bne_self_eq_false] at other
    cases other
  · have passes := (each step member).1.2
    rw [failed] at passes
    cases passes

end Check

end TreeLint
