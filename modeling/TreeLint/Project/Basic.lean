import TreeLint.Files.Basic
import TreeLint.Load.Error
import TreeLint.Toml.Reader

/-! The settings of a project, which stand in the nearest project file at or above a directory. A
project file that cannot be understood counts as an empty one. -/

namespace TreeLint

/-- The configuration in a project file, and the table of all tools around it. -/
structure ProjectSettings where
  config : Value
  tools : Value

namespace ProjectSettings

def fileName : String := "pyproject.toml"

def toolsKey : String := "tool"

def configKey : String := "frontend-rules"

def none : ProjectSettings := ⟨.object [], .object []⟩

/-- The entry of a key; the empty object for one that is missing or not truthy. -/
def entryOrEmpty (table : Members) (key : String) : Value :=
  match table.lookup key with
  | some v => if v.isTruthy then v else .object []
  | .none => .object []

def ofTable (table : Members) : Read ProjectSettings :=
  match entryOrEmpty table toolsKey with
  | .object tools => .ok ⟨entryOrEmpty tools configKey, .object tools⟩
  | _ => .error .noFields

variable [Host]

def ofBytes (bytes : List UInt8) : Except Failure ProjectSettings :=
  match Text.Utf8.decode bytes with
  | .error error => .error (.file (.notText error))
  | .ok text => match Toml.parse Host.settingsRoom text with
    | .error .malformed => .ok .none
    | .error (.longInteger digits) => .error (.fault (.longInteger digits))
    | .error .tooDeep => .error (.fault .tooDeep)
    | .ok table => (ofTable table).mapError .fault

/-- The directory at a path and those above it, the innermost first. -/
def upward (path : Path) : List Path :=
  (List.range (path.segments.length + 1)).reverse.map fun n =>
    { path with segments := path.segments.take n }

/-- The settings of the first of some directories that has a project file; one that cannot be read is
passed over. -/
def search (fs : FileSystem) : List Path → Except Failure ProjectSettings
  | [] => .ok .none
  | directory :: rest => do
    let path := directory.child fileName
    if ← (fs.pathExists path).mapError .file then
      match fs.readBytes path with
      | .ok bytes => ofBytes bytes
      | .error _ => search fs rest
    else search fs rest

def load (fs : FileSystem) (start : Path) : Except Failure ProjectSettings := do
  search fs (upward (← (fs.resolve start).mapError .file))

end ProjectSettings

end TreeLint
