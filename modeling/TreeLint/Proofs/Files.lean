import TreeLint.Files.Basic
import TreeLint.Proofs.Failing
import TreeLint.Proofs.Table
import TreeLint.Proofs.Utf8

/-! Files and the paths that lead to them. Where paths lead is a matter of the layout alone; putting
bytes into a file changes what this file holds and nothing else. A text that is written to a file that
is there leaves the layout as it is, and leaves all of the text in the file, or a beginning of it and an
error. -/

namespace TreeLint

namespace FileSystem

@[simp] theorem put_toLayout (fs : FileSystem) (number : Nat) (bytes : List UInt8) :
    (fs.put number bytes).toLayout = fs.toLayout := rfl

theorem bytes_put (fs : FileSystem) (number : Nat) (new : List UInt8) (other : Nat) :
    (fs.put number new).bytes other = if number = other then new else fs.bytes other := by
  unfold bytes put
  rw [Table.lookup_put]
  split <;> rfl

end FileSystem

/-- The number of a file, and what may be done with it. -/
def Entry.file? : Entry → Option (Nat × Access)
  | file number access => some (number, access)
  | _ => none

variable [Host]

namespace Layout

variable {layout : Layout} {path : Path} {entry : Entry}

theorem find_of_file? {number : Nat} {access : Access}
    (held : (layout.find path).toOption.bind Entry.file? = some (number, access)) :
    layout.find path = .ok (.file number access) := by
  obtain ⟨entry, found, file⟩ := Option.bind_eq_some_iff.mp held
  cases entry with
  | file other allowed =>
    cases file
    exact toOption_eq_some_iff.mp found
  | directory access entries => cases file
  | link target => cases file

def Leads (layout : Layout) (path : Path) (number : Nat) : Prop :=
  ∃ access, layout.find path = .ok (.file number access)

theorem Leads.unique {one two : Nat} (first : layout.Leads path one)
    (second : layout.Leads path two) : one = two := by
  obtain ⟨_, first⟩ := first
  obtain ⟨_, second⟩ := second
  have same := Except.ok.inj (first.symm.trans second)
  exact (Entry.file.inj same).1

theorem find?_of_find (found : layout.find path = .ok entry) :
    layout.find? path = .ok (some entry) := by
  unfold find?
  rw [found]

theorem pathExists_of_find (found : layout.find path = .ok entry) :
    layout.pathExists path = .ok true := by
  unfold pathExists
  rw [find?_of_find found]
  rfl

/-- What is said to be there can be found. -/
theorem find_of_pathExists (there : layout.pathExists path = .ok true) :
    ∃ entry, layout.find path = .ok entry := by
  obtain ⟨looked, found, given⟩ := bind_ok_iff.mp there
  unfold find? at found
  split at found
  · exact ⟨_, by assumption⟩
  · split at found
    · cases found
    · cases found
      cases given

/-- A question about what is there is answered unless an error on the way is raised by it. -/
theorem find?_ok_iff : (∃ found, layout.find? path = .ok found) ↔
    ∀ error, layout.find path = .error error → error.escapes = false := by
  unfold find?
  cases layout.find path with
  | ok entry => simp
  | error error => cases raised : error.escapes <;> simp [raised]

theorem pathExists_ok_iff : (∃ there, layout.pathExists path = .ok there) ↔
    ∀ error, layout.find path = .error error → error.escapes = false := by
  unfold pathExists
  rw [exists_bind_ok_iff, ← find?_ok_iff]
  simp [Pure.pure, Except.pure]

theorem isDirectory_ok_iff : (∃ found, layout.isDirectory path = .ok found) ↔
    ∀ error, layout.find path = .error error → error.escapes = false := by
  unfold isDirectory
  rw [exists_bind_ok_iff, ← find?_ok_iff]
  simp [Pure.pure, Except.pure]

end Layout

namespace FileSystem

variable {fs : FileSystem} {path : Path} {number : Nat} {access : Access} {text : List Char}

/-- What is read at a path is read from the file to which the path leads. -/
theorem readBytes_of_find (found : fs.find path = .ok (.file number access))
    (readable : access.read = true) : fs.readBytes path = .ok (fs.bytes number) := by
  unfold readBytes
  rw [found, ok_bind]
  exact if_pos readable

theorem readable_of_readBytes {bytes : List UInt8} (read : fs.readBytes path = .ok bytes) :
    ∃ number access, fs.find path = .ok (.file number access) ∧ access.read = true := by
  obtain ⟨entry, found, given⟩ := bind_ok_iff.mp read
  cases entry with
  | file number access =>
    refine ⟨number, access, found, ?_⟩
    by_contra unreadable
    exact nomatch (if_neg unreadable).symm.trans given
  | directory access entries => cases given
  | link target => cases given

/-- A text is read with line feeds for its line ends. -/
theorem readText_of_bytes (read : fs.readBytes path = .ok (Text.Utf8.encode text)) :
    fs.readText path = .ok (Text.withLineFeeds text) := by
  unfold readText
  rw [read, ok_bind, Text.Utf8.decode_encode]
  rfl

/-- A file that is filled with a text holds all of it, or a beginning if that fails. -/
theorem fill_cases (fs : FileSystem) (number : Nat) (text : List Char) : ∃ kept,
    kept <+: Text.Utf8.encode text ∧ (fs.fill number text).files = fs.put number kept ∧
      ((fs.fill number text).result = .ok () → kept = Text.Utf8.encode text) := by
  unfold fill
  split
  · exact ⟨[], List.nil_prefix, rfl, nofun⟩
  · refine ⟨_, List.take_prefix _ _, rfl, fun went => ?_⟩
    by_contra short
    exact nomatch (if_neg short).symm.trans went

/-- There are bytes for a text, and there is room for them in a file. -/
structure Takes (fs : FileSystem) (number : Nat) (text : List Char) : Prop where
  written : Text.Utf8.halves? Host.half? (fun _ => false) 0 text = none
  room : (Text.Utf8.encode text).length ≤
    fs.room fs.contents number (Text.Utf8.encode text)

theorem fill_of_takes (takes : fs.Takes number text) :
    fs.fill number text = ⟨fs.put number (Text.Utf8.encode text), .ok ()⟩ := by
  unfold fill
  rw [takes.written]
  dsimp only
  rw [List.take_of_length_le takes.room, if_pos rfl]

theorem writeText_of_find (found : fs.find path = .ok (.file number access))
    (text : List Char) : fs.writeText path text =
      if access.write then fs.fill number text else ⟨fs, .error (.denied path.text)⟩ := by
  obtain ⟨place, located, given⟩ := bind_ok_iff.mp found
  unfold writeText
  rw [located]
  dsimp only
  split at given
  · cases given
    simp only [*]
  · cases given

theorem writeText_of_other {entry : Entry} (found : fs.find path = .ok entry)
    (other : ∀ number access, entry ≠ .file number access) (text : List Char) :
    fs.writeText path text = ⟨fs, .error (.isDirectory path.text)⟩ := by
  obtain ⟨place, located, given⟩ := bind_ok_iff.mp found
  unfold writeText
  rw [located]
  dsimp only
  split at given
  · rename_i held
    cases given
    cases entry with
    | file number access => exact absurd rfl (other number access)
    | directory access entries => simp only [held]
    | link target => simp only [held]
  · cases given

/-- What is there and takes part of a text is a file that may be written. -/
theorem writeText_of_exists (there : fs.pathExists path = .ok true) (text : List Char) :
    (∃ error, fs.writeText path text = ⟨fs, .error error⟩) ∨
      ∃ number, fs.Leads path number ∧ fs.writeText path text = fs.fill number text := by
  obtain ⟨entry, found⟩ := Layout.find_of_pathExists there
  cases entry with
  | file number access =>
    rw [writeText_of_find found]
    split
    · exact .inr ⟨number, ⟨access, found⟩, rfl⟩
    · exact .inl ⟨_, rfl⟩
  | directory access entries => exact .inl ⟨_, writeText_of_other found nofun text⟩
  | link target => exact .inl ⟨_, writeText_of_other found nofun text⟩

end FileSystem

end TreeLint
