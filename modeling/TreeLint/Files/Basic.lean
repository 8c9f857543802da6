import TreeLint.Files.Resolve
import TreeLint.Files.Search
import TreeLint.Text.Lines

/-! Files, their layout and what they hold; reading and writing them. A text is read with one line
feed for every line end and written as it is. A file is emptied before a text is written to it, and
stays so if there are no bytes for the text, or ends early if there is no room for all of them. -/

namespace TreeLint

/-- A file system: where its files are, and the bytes of each of them by its number. -/
structure FileSystem extends Layout where
  contents : List (Nat × List UInt8)

namespace FileSystem

def bytes (fs : FileSystem) (number : Nat) : List UInt8 := (fs.contents.lookup number).getD []

def put (fs : FileSystem) (number : Nat) (bytes : List UInt8) : FileSystem :=
  { fs with contents := Table.put fs.contents number bytes }

def files (fs : FileSystem) : List (List String × Nat) := fs.root.files []

def freshNumber (fs : FileSystem) : Nat := (fs.files.map fun (_, number) => number + 1).foldl max 0

def putEntry (fs : FileSystem) (place : List String) (entry : Entry) : FileSystem :=
  match fs.root.put place entry with
  | .directory access entries => { fs with access, entries }
  | _ => fs

variable [Host]

def readBytes (fs : FileSystem) (path : Path) : Except FileError (List UInt8) := do
  match ← fs.find path with
  | .file number access =>
    if access.read then return fs.bytes number else .error (.denied path.text)
  | .directory access _ =>
    .error (if access.read then .isDirectory path.text else .denied path.text)
  | .link _ => .error (.looped path.text)

def readText (fs : FileSystem) (path : Path) : Except FileError (List Char) := do
  match Text.Utf8.decode (← fs.readBytes path) with
  | .ok text => return Text.withLineFeeds text
  | .error error => .error (.notText error)

/-- What has become of the files when a text was to be written, and how that went. -/
structure Written where
  files : FileSystem
  result : Except FileError Unit

/-- Put a text in the place of what a file holds. -/
def fill (fs : FileSystem) (number : Nat) (text : List Char) : Written :=
  match Text.Utf8.halves? Host.half? (fun _ => false) 0 text with
  | some halves => ⟨fs.put number [], .error (.unwritable halves)⟩
  | none =>
    let all := Text.Utf8.encode text
    let kept := all.take (fs.room fs.contents number all)
    ⟨fs.put number kept, if kept = all then .ok () else .error .noSpace⟩

/-- Write a text to a file, which is made if it is not there. -/
def writeText (fs : FileSystem) (path : Path) (text : List Char) : Written :=
  let refused (error : FileError) : Written := ⟨fs, .error error⟩
  match fs.locate path with
  | .error error => refused error
  | .ok place => match fs.at? place, fs.at? place.dropLast with
    | some (.file number access), _ =>
      if access.write then fs.fill number text else refused (.denied path.text)
    | some _, _ => refused (.isDirectory path.text)
    | none, some (.directory access _) =>
      if access.write then
        (fs.putEntry place (.file fs.freshNumber {})).fill fs.freshNumber text
      else refused (.denied path.text)
    | none, _ => refused (.missing path.text)

/-- The files whose bytes are not what they were, with their new bytes. -/
def changes (before after : FileSystem) : List (List String × List UInt8) :=
  after.files.filterMap fun (names, number) =>
    if before.files.contains (names, number) && before.bytes number = after.bytes number then none
    else some (names, after.bytes number)

end FileSystem

end TreeLint
