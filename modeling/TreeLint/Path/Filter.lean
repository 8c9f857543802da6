import TreeLint.Path.Basic
import TreeLint.Path.Pattern
import TreeLint.Value.Whole

/-! Filters made of path patterns. The last pattern that matches a path decides; a path from a root
is also tried as it reads from the working directory. -/

namespace TreeLint

/-- How patterns are understood: what they were written as gives a test of the paths that they
choose. -/
abbrev PathSpec := List String → Read (String → Bool)

namespace PathSpec

/-- A path as patterns see it: without the slash or the dot and slash at its start. -/
def bare : List Char → List Char
  | '/' :: rest => rest
  | '.' :: '/' :: rest => rest
  | cs => cs

/-- Whether the last pattern that matches the path chooses it. -/
def chooses (patterns : List Path.Pattern) (path : String) : Bool :=
  match patterns.reverse.find? (·.matches (bare path.toList)) with
  | some pattern => !pattern.excepts
  | none => false

def versionControl : PathSpec := fun written => do
  return chooses (← written.mapM Path.Pattern.ofString)

end PathSpec

/-- Patterns as they were written, the test that they make if there are any, and the working
directory. -/
structure PathFilter where
  written : List String
  test? : Option (String → Bool)
  root : Option String

namespace PathFilter

def kept (patterns : List Value) : List String :=
  (patterns.filterMap Value.string?).filter (!Text.isBlankString ·)

/-- The filter of a list of patterns; items that are no visible texts do not count. -/
def ofPatterns (patterns : List Value) (root : Option String) (spec : PathSpec) :
    Read PathFilter := do
  let written := kept patterns
  if written.isEmpty then return { written, test? := none, root }
  else return { written, test? := some (← spec written), root }

def isActive (f : PathFilter) : Bool := f.test?.isSome

def forms (root : Option String) (path : String) : List Path :=
  let given := Path.ofString path
  match root with
  | some base =>
    if base != "" && given.isAbsolute then
      given :: (given.relativeTo? (Path.ofString base)).toList
    else [given]
  | none => [given]

def accepts (f : PathFilter) (path : String) : Bool :=
  match f.test? with
  | some test => path != "" && (forms f.root path).any (test ·.text)
  | none => false

end PathFilter

end TreeLint
