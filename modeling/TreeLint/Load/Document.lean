import TreeLint.Load.Error
import TreeLint.Path.Basic

/-! Documents that serialize a tree. A document is either a program alone, saved beside its source
under the name of the source with `.json` after it, or an envelope that names the file of the
source and may hold its text. -/

namespace TreeLint

/-- What a document tells: the program, the name of its file, the text of the source if the
document holds it, and the path at which the source is expected. -/
structure Document where
  program : Members
  filename : String
  text : Option String
  sourcePath : String

namespace Document

def isProgram (members : Members) : Bool :=
  match members.lookup "type" with
  | some (.str type) => type == "Program"
  | _ => false

def sourceName? (path : String) : Option String :=
  let reversed := path.toList.reverse
  let mark := ".json".toList
  if mark.reverse.isPrefixOf reversed then some (String.ofList (reversed.drop mark.length).reverse)
  else none

/-- The path of a source that an envelope names, seen from the directory of the envelope. -/
def sourceBeside (path filePath : String) : String :=
  ((Path.ofString path).parent.join (Path.ofString filePath)).text

def inlineText (members : Members) : Except LoadProblem (Option String) :=
  match members.lookup "source" with
  | none | some .null => .ok none
  | some (.str text) => .ok (some text)
  | some _ => .error .sourceNotText

def ofEnvelope (path : String) (members program : Members) : Except LoadProblem Document :=
  match members.lookup "filePath" with
  | some (.str filename) => do
    if filename = "" then .error .noFilePath
    return { program, filename, text := ← inlineText members
             sourcePath := sourceBeside path filename }
  | _ => .error .noFilePath

def ofMembers (path : String) (members : Members) : Except LoadProblem Document :=
  if isProgram members then match sourceName? path with
    | some source => .ok { program := members, filename := source, text := none
                           sourcePath := source }
    | none => .error .noSourceName
  else match members.lookup "ast" with
    | none => .error .notTree
    | some (.object program) =>
      if isProgram program then ofEnvelope path members program else .error .noProgram
    | some _ => .error .noProgram

end Document

end TreeLint
