import TreeLint.Count
import TreeLint.Files.Error
import TreeLint.Host

/-! What there is apart from what the files hold: the directories from the root on, the files and links
in them, and who may do what with them. A path is followed name by name, from the root or from the
working directory, and so are the links on its way. -/

namespace TreeLint

/-- What may be done: read a file or list a directory, write to it, and go on from a directory. -/
structure Access where
  read : Bool := true
  write : Bool := true
  pass : Bool := true
  deriving DecidableEq

/-- What stands under a name. A file is known by its number; it may stand under several names. In the
path of a link, a segment of a single dot has to be a directory. -/
inductive Entry where
  | file (number : Nat) (access : Access)
  | directory (access : Access) (entries : List (String × Entry))
  | link (target : Path)

namespace Entry

def isFile : Entry → Bool
  | file _ _ => true
  | _ => false

def isDirectory : Entry → Bool
  | directory _ _ => true
  | _ => false

def at? : Entry → List String → Option Entry
  | entry, [] => some entry
  | directory _ entries, name :: rest => (entries.lookup name).bind fun entry => entry.at? rest
  | _, _ :: _ => none

/-- Set what is at the end of some names, with the directories that lead there. -/
def put : Entry → List String → Entry → Entry
  | _, [], new => new
  | directory access entries, name :: rest, new =>
    let old := (entries.lookup name).getD (.directory {} [])
    .directory access (Table.put entries name (old.put rest new))
  | _, name :: rest, new => .directory {} [(name, put (.directory {} []) rest new)]

mutual

def files (above : List String) : Entry → List (List String × Nat)
  | file number _ => [(above, number)]
  | directory _ entries => filesAmong above entries
  | link _ => []

def filesAmong (above : List String) : List (String × Entry) → List (List String × Nat)
  | [] => []
  | (name, entry) :: rest => entry.files (above ++ [name]) ++ filesAmong above rest

end

end Entry

/-- The entries below the root, and what the system sets about paths and files. -/
structure Layout where
  entries : List (String × Entry)
  access : Access := {}
  /-- The names that lead to the working directory. -/
  start : List String := []
  /-- The most bytes in a name. -/
  nameLimit : Nat := 255
  /-- The most bytes in a path. -/
  pathLimit : Nat := 4095
  /-- The most links that are followed on the way of a path. -/
  linkLimit : Nat := 40
  /-- How many bytes there is room for, given what the files hold, of those for one file. -/
  room : List (Nat × List UInt8) → Nat → List UInt8 → Nat := fun _ _ bytes => bytes.length

/-- Where names lead: to a place, or to a link, with names still to come. -/
inductive Stop where
  | place (names : List String)
  | link (above : List String) (target : Path) (rest : List String)

namespace Layout

def root (layout : Layout) : Entry := .directory layout.access layout.entries

def at? (layout : Layout) (place : List String) : Option Entry := layout.root.at? place

variable [Host]

/-- Whether half of a surrogate pair stands for a byte of a name that is no text. -/
def isByte (half : Nat) : Bool := 0xDC80 ≤ half && half ≤ 0xDCFF

def byteLength (s : String) : Nat :=
  sumOver (fun c => if (Host.half? c).isSome then 1 else (Text.Utf8.encodeChar c).length) s.toList

/-- What keeps a text from being a path of any system. -/
def textError? (text : String) : Option FileError :=
  match Text.Utf8.halves? Host.half? isByte 0 text.toList with
  | some halves => some (.unwritable halves)
  | none => if text.toList.contains '\x00' then some .badPath else none

/-- What keeps a text from being a path, whatever there is. -/
def pathError? (layout : Layout) (text : String) : Option FileError :=
  (textError? text).or
    (if layout.pathLimit < byteLength text then some (.nameTooLong text) else none)

/-- Go on from a place by a name. Whether there is something at the name shows only if one has to go
on from there. -/
def step (layout : Layout) (path : String) (place : List String) (name : String) :
    Except FileError (List String) :=
  match layout.at? place with
  | none => .error (.missing path)
  | some (.directory access _) =>
    if !access.pass then .error (.denied path)
    else if name = "." then .ok place
    else if name = ".." then .ok place.dropLast
    else if layout.nameLimit < byteLength name then .error (.nameTooLong path)
    else .ok (place ++ [name])
  | some _ => .error (.notDirectory path)

/-- Go on from a place by names, up to the first link. -/
def advance (layout : Layout) (path : String) (place : List String) :
    List String → Except FileError Stop
  | [] => .ok (.place place)
  | name :: rest => do
    let next ← layout.step path place name
    match layout.at? next with
    | some (.link target) => return .link place target rest
    | _ => layout.advance path next rest

/-- Go on from a place by names, and through so many links. -/
def walk (layout : Layout) (path : String) : Nat → List String → List String →
    Except FileError (List String)
  | links, place, names => do
    match ← layout.advance path place names with
    | .place place => return place
    | .link above target rest => match links with
      | 0 => .error (.looped path)
      | links + 1 =>
        layout.walk path links (if target.isAbsolute then [] else above) (target.segments ++ rest)

/-- Where a path starts, and the names on its way. -/
def way (layout : Layout) (path : Path) : List String × List String :=
  if path.isAbsolute then ([], path.segments)
  else (layout.start, if path.segments.isEmpty then ["."] else path.segments)

/-- The place that a path leads to; there may be nothing at it. -/
def locate (layout : Layout) (path : Path) : Except FileError (List String) :=
  match layout.pathError? path.text with
  | some error => .error error
  | none =>
    let (place, names) := layout.way path
    layout.walk path.text layout.linkLimit place names

def find (layout : Layout) (path : Path) : Except FileError Entry := do
  match layout.at? (← layout.locate path) with
  | some entry => return entry
  | none => .error (.missing path.text)

/-- What a path leads to, if anything, as far as that can be told. -/
def find? (layout : Layout) (path : Path) : Except FileError (Option Entry) :=
  match layout.find path with
  | .ok entry => .ok (some entry)
  | .error error => if error.escapes then .error error else .ok none

def pathExists (layout : Layout) (path : Path) : Except FileError Bool := do
  return (← layout.find? path).isSome

def isDirectory (layout : Layout) (path : Path) : Except FileError Bool := do
  return (← layout.find? path).any Entry.isDirectory

def isFile (layout : Layout) (path : Path) : Except FileError Bool := do
  return (← layout.find? path).any Entry.isFile

def list (layout : Layout) (path : Path) : Except FileError (List (String × Entry)) := do
  match ← layout.find path with
  | .directory access entries =>
    if access.read then return entries else .error (.denied path.text)
  | _ => .error (.notDirectory path.text)

end Layout

end TreeLint
