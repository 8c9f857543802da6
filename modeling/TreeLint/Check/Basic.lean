import TreeLint.Fixing.Basic
import TreeLint.Lint.Basic
import TreeLint.Load.Basic

/-! Checking files. Directories stand for the JSON files below them; a file found in one that is no
serialized tree is passed over, but one that was named is not. Sources are mended on disk when that
is asked for, and what was written stays written if a later file stops the run. -/

namespace TreeLint.Check

/-- A file to check, and whether it was found in a directory or named. -/
structure Target where
  path : String
  found : Bool
  deriving DecidableEq

/-- Add the targets whose paths are not among those that are there already. -/
def addTargets (targets : List Target) (more : List Target) : List Target :=
  more.foldl (fun done target =>
    if done.any (·.path == target.path) then done else done ++ [target]) targets

/-- What has become of the files after a piece of work, and what the work gave. -/
structure Outcome (α : Type) where
  files : FileSystem
  result : Except Failure α

/-- The result for a file without the violations that were mended, whose indices are given. -/
def mended (result : LintResult) (text : List Char) (applied : List Nat) : LintResult :=
  { result with
    violations := (result.violations.zipIdx.filter fun (_, i) => !applied.contains i).map (·.1)
    fixedSource := some (String.ofList text)
    appliedFixes := applied.length }

variable [Host]

def targetsOf (fs : FileSystem) (path : String) : Except FileError (List Target) := do
  if ← fs.isDirectory (Path.ofString path) then
    return (← fs.jsonFiles (Path.ofString path)).map (⟨·, true⟩)
  else return [⟨path, false⟩]

/-- The targets that paths stand for, each at its first place, after those that are there
already. -/
def targetsFrom (fs : FileSystem) (done : List Target) : List String →
    Except FileError (List Target)
  | [] => .ok done
  | path :: rest => do targetsFrom fs (addTargets done (← targetsOf fs path)) rest

def targets (fs : FileSystem) (paths : List String) : Except FileError (List Target) :=
  targetsFrom fs [] paths

def files (fs : FileSystem) (paths : List String) : Except FileError (List String) := do
  return (← targets fs paths).map (·.path)

/-- Mend the source of a file on disk, if there is one and anything can be mended. -/
def mend (fs : FileSystem) (file : ParsedFile) (result : LintResult) : Outcome LintResult :=
  match file.sourcePath with
  | none => ⟨fs, .ok result⟩
  | some path =>
    let outcome := Fixing.apply (fun x : Violation × Nat => x.1.fix) file.source.text
      result.violations.zipIdx
    if outcome.applied.isEmpty then ⟨fs, .ok result⟩
    else
      let written := fs.writeText (Path.ofString path) outcome.text
      ⟨written.files, match written.result with
        | .error error => .error (.file error)
        | .ok () => .ok (mended result outcome.text (outcome.applied.map (·.2)))⟩

/-- Check a target. There is no result for a file found in a directory that is no serialized
tree. -/
@[irreducible] def checkTarget (config : Configuration) (fix : Bool) (cwd : Option String)
    (fs : FileSystem) (target : Target) : Outcome (Option LintResult) :=
  match ParsedFile.load fs target.path with
  | .error failure =>
    if target.found && failure.isForeign then ⟨fs, .ok none⟩ else ⟨fs, .error failure⟩
  | .ok file => match Lint.run config file cwd with
    | .error fault => ⟨fs, .error (.fault fault)⟩
    | .ok result =>
      if fix && result.fixableCount != 0 then
        let outcome := mend fs file result
        ⟨outcome.files, outcome.result.map some⟩
      else ⟨fs, .ok (some result)⟩

def checkTargets (config : Configuration) (fix : Bool) (cwd : Option String) (fs : FileSystem) :
    List Target → Outcome (List LintResult)
  | [] => ⟨fs, .ok []⟩
  | target :: rest =>
    let outcome := checkTarget config fix cwd fs target
    match outcome.result with
    | .error failure => ⟨outcome.files, .error failure⟩
    | .ok result =>
      let others := checkTargets config fix cwd outcome.files rest
      ⟨others.files, others.result.map (result.toList ++ ·)⟩

/-- Check the files that paths stand for; with `fix`, mend their sources on disk. -/
def run (config : Configuration) (paths : List String) (fix : Bool) (cwd : Option String)
    (fs : FileSystem) : Outcome (List LintResult) :=
  match targets fs paths with
  | .error error => ⟨fs, .error (.file error)⟩
  | .ok targets => checkTargets config fix cwd fs targets

end TreeLint.Check
