import TreeLint.Text.Basic

/-! File paths in POSIX form. Repeated slashes and segments of a single dot mean nothing; a path
may start from the directory at hand or from one of two roots, since exactly two leading slashes
are kept apart from one. -/

namespace TreeLint

inductive Anchor where
  | here
  | root
  | doubleRoot
  deriving DecidableEq

def Anchor.text : Anchor → String
  | here => ""
  | root => "/"
  | doubleRoot => "//"

/-- A path: where it starts and the names on the way. -/
structure Path where
  anchor : Anchor
  segments : List String
  deriving DecidableEq

namespace Path

def anchorOf : List Char → Anchor
  | '/' :: '/' :: '/' :: _ => .root
  | '/' :: '/' :: _ => .doubleRoot
  | '/' :: _ => .root
  | _ => .here

def ofString (s : String) : Path :=
  { anchor := anchorOf s.toList
    segments := ((Text.pieces '/' s.toList).map String.ofList).filter
      fun segment => segment != "" && segment != "." }

/-- The text of a path; the directory at hand is a dot. -/
def text (p : Path) : String :=
  if p.anchor = .here && p.segments.isEmpty then "."
  else p.anchor.text ++ "/".intercalate p.segments

def isAbsolute (p : Path) : Bool := p.anchor != .here

def parent (p : Path) : Path := { p with segments := p.segments.dropLast }

def child (p : Path) (name : String) : Path := { p with segments := p.segments ++ [name] }

/-- The second path, taken from the first unless it starts from a root itself. -/
def join (p q : Path) : Path :=
  if q.isAbsolute then q else { p with segments := p.segments ++ q.segments }

def name (p : Path) : String := p.segments.getLastD ""

/-- The last name from its last dot on, when something stands on both sides of the dot. -/
def suffix (p : Path) : String :=
  let reversed := p.name.toList.reverse
  let after := reversed.takeWhile (· ≠ '.')
  let before := (reversed.dropWhile (· ≠ '.')).drop 1
  if after.isEmpty || before.isEmpty then "" else String.ofList ('.' :: after.reverse)

/-- The rest of a path after another one that it starts with. -/
def relativeTo? (p base : Path) : Option Path :=
  if p.anchor = base.anchor && base.segments.isPrefixOf p.segments then
    some ⟨.here, p.segments.drop base.segments.length⟩
  else none

end Path

end TreeLint
