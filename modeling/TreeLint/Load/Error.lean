import TreeLint.Fault
import TreeLint.Files.Error
import TreeLint.Json.Reader

/-! Why a serialized tree cannot be loaded. Most causes are problems of the document, which a
message tells together with its path; what is wrong deeper inside the tree is a fault. -/

namespace TreeLint

inductive LoadProblem where
  /-- The file cannot be read. -/
  | unreadable (error : FileError)
  /-- The text of the file is no JSON. -/
  | notJson (error : Json.Error)
  /-- Containers are nested too deeply. -/
  | tooDeep
  /-- The document is no object. -/
  | notObject
  /-- The object is neither a program nor an envelope around one. -/
  | notTree
  /-- The envelope holds no program. -/
  | noProgram
  /-- A program without an envelope has a file name that does not tell its source. -/
  | noSourceName
  /-- The envelope does not name the file of the source. -/
  | noFilePath
  /-- The source in the envelope is no text. -/
  | sourceNotText
  /-- The source, which is at the given path, cannot be read. -/
  | unreadableSource (path : String) (error : FileError)
  deriving DecidableEq

namespace LoadProblem

/-- Whether the document was never meant to be a serialized tree. -/
def isForeign : LoadProblem → Bool
  | notObject | notTree => true
  | _ => false

def message (half? : Char → Option Nat) : LoadProblem → String
  | unreadable error => error.message half?
  | notJson error => "invalid JSON: " ++ error.message
  | tooDeep => "JSON nesting is too deep to decode"
  | notObject => "top-level JSON value must be an object"
  | notTree | noProgram => "expected a Program node or an envelope with an 'ast' Program"
  | noSourceName => "a bare Program must be saved as <source>.json"
  | noFilePath => "envelope is missing 'filePath'"
  | sourceNotText => "'source' must be a string"
  | unreadableSource path error => "cannot read source " ++ path ++ ": " ++ error.message half?

end LoadProblem

inductive Failure where
  /-- The document at a path cannot be used. -/
  | load (path : String) (problem : LoadProblem)
  /-- A file cannot be looked at or written. -/
  | file (error : FileError)
  /-- Data has not the shape that it should have. -/
  | fault (fault : Fault)
  deriving DecidableEq

namespace Failure

/-- Whether a document was never meant to be a serialized tree. -/
def isForeign : Failure → Bool
  | load _ problem => problem.isForeign
  | _ => false

def message? (half? : Char → Option Nat) : Failure → Option String
  | load path problem =>
    some ("Cannot load syntax tree from " ++ path ++ ": " ++ problem.message half?)
  | file error => some (error.message half?)
  | fault f => f.message? half?

end Failure

end TreeLint
