import TreeLint.Files.Layout

/-! The path without links that a path stands for. It need not lead anywhere. -/

namespace TreeLint.Layout

/-- Go on from the end of some names. A pair of dots takes back the name before it; above the start
there is nothing if that is the root, and else the pair stays. -/
def resolveName (fromRoot : Bool) (done : List String) (name : String) : List String :=
  if name = "." then done
  else if name ≠ ".." then done ++ [name]
  else match done.getLast? with
    | none => if fromRoot then [] else [".."]
    | some last => if last = ".." then done ++ [".."] else done.dropLast

/-- The path to which a name leads from a path, if it is no link. -/
def onward (path : Path) (name : String) : Path :=
  { path with segments := resolveName path.isAbsolute path.segments name }

variable [Host]

def linkAt? (layout : Layout) (path : Path) : Except FileError (Option Path) :=
  match layout.pathError? path.text with
  | some error => if error.isOfText then .error error else .ok none
  | none =>
    let (place, names) := layout.way path
    match layout.advance path.text place names with
    | .ok (.link _ target []) => .ok (some target)
    | _ => .ok none

/-- The path without links to which another one leads from a path, while the links in `opened` are
being resolved, and whether that went well. A link in itself is left as it is, and so is all after
it. -/
def resolveFrom (layout : Layout) : Nat → List Path → Path → Path → Except FileError (Path × Bool)
  | 0, _, _, _ => .error .tooDeep
  | levels + 1, opened, path, other =>
    other.segments.foldlM (fun (path, whole) name => do
        let next := onward path name
        if !whole || name = "." || name = ".." then return (next, whole)
        match ← layout.linkAt? next with
        | none => return (next, true)
        | some target =>
          if opened.contains next then return (next, false)
          else layout.resolveFrom levels (next :: opened) path target)
      (if other.isAbsolute then ⟨.root, []⟩ else path, true)

/-- The path without links that a path stands for, from the root on. -/
def resolve (layout : Layout) (path : Path) : Except FileError Path := do
  let (found, _) ← layout.resolveFrom Host.linkLevels [] ⟨.here, []⟩ path
  let names := if found.isAbsolute then [] else layout.start
  let whole : Path := ⟨.root, found.segments.foldl (resolveName true) names⟩
  match layout.find whole with
  | .error (.looped text) => .error (.circle text)
  | .error error => if error.isOfText then .error error else return whole
  | .ok _ => return whole

end TreeLint.Layout
