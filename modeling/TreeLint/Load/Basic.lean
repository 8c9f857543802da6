import TreeLint.Files.Basic
import TreeLint.Lint.Result
import TreeLint.Load.Document

/-! Loading a serialized tree and its source from files. The text in an envelope is preferred to
the one on disk; a source that is found nowhere is empty. -/

namespace TreeLint

variable [Host]

namespace Document

def readMembers (fs : FileSystem) (path : String) : Except Failure Members :=
  match fs.readText (Path.ofString path) with
  | .error error =>
    if error.isOfText then .error (.file error) else .error (.load path (.unreadable error))
  | .ok text => match Json.parse Host.documentLevels text with
    | .error .tooDeep => .error (.load path .tooDeep)
    | .error (.longInteger digits) => .error (.fault (.longInteger digits))
    | .error error => .error (.load path (.notJson error))
    | .ok (.object members) => .ok members
    | .ok _ => .error (.load path .notObject)

def read (fs : FileSystem) (path : String) : Except Failure Document := do
  match ofMembers path (← readMembers fs path) with
  | .ok document => return document
  | .error problem => .error (.load path problem)

/-- The text of the source of a document at a path: the one that the document holds, else the one
on disk, if there is any. -/
def sourceText (fs : FileSystem) (path : String) (document : Document) (onDisk : Bool) :
    Except Failure (List Char) :=
  match document.text with
  | some text => .ok text.toList
  | none =>
    if onDisk then match fs.readText (Path.ofString document.sourcePath) with
      | .ok text => .ok text
      | .error error => .error (.load path (.unreadableSource document.sourcePath error))
    else .ok []

end Document

def ParsedFile.load (fs : FileSystem) (path : String) : Except Failure ParsedFile := do
  let document ← Document.read fs path
  let onDisk ← (fs.pathExists (Path.ofString document.sourcePath)).mapError .file
  let text ← document.sourceText fs path onDisk
  let root ← (Tree.root (.object document.program)).mapError .fault
  let source ← (SourceCode.ofTree text root).mapError .fault
  return { filename := some document.filename, source
           sourcePath := if onDisk then some document.sourcePath else none }

end TreeLint
