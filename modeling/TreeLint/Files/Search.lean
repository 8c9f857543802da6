import TreeLint.Files.Layout

/-! The JSON files below a directory. A search goes through the directories below it, but not through
links to directories. A directory that may not be listed counts as empty; and if links are asked where
they lead, the rest of a directory is not searched after one that leads where one may not go. -/

namespace TreeLint

namespace Layout

variable [Host]

def isJsonName (name : String) : Bool := ".json".toList.isSuffixOf name.toList

def jsonEntries (layout : Layout) (path : Path) :
    List (String × Entry) → Except FileError (List String)
  | [] => .ok []
  | (name, _) :: rest => do
    if isJsonName name then
      let found ← layout.isFile (path.child name)
      let others ← layout.jsonEntries path rest
      return if found then (path.child name).text :: others else others
    else layout.jsonEntries path rest

def askLink (layout : Layout) (path : Path) : Except FileError Unit :=
  if Host.asksLinks then (layout.find? path).map fun _ => () else .ok ()

/-- The files that a search finds in those of the entries of a directory that are directories. -/
def searchEntries (layout : Layout) (search : Path → Except FileError (List String)) (path : Path) :
    List (String × Entry) → Except FileError (List String)
  | [] => .ok []
  | (_, .file _ _) :: rest => layout.searchEntries search path rest
  | (name, .directory _ _) :: rest => do
    let found ← search (path.child name)
    return found ++ (← layout.searchEntries search path rest)
  | (name, .link _) :: rest => match layout.askLink (path.child name) with
    | .error (.denied _) => .ok []
    | .error error => .error error
    | .ok () => layout.searchEntries search path rest

/-- The JSON files in the directory at a path and in those below it, to so many levels. -/
def search (layout : Layout) : Nat → Path → Except FileError (List String)
  | 0, _ => .error .tooDeep
  | levels + 1, path => match layout.list path with
    | .error (.denied _) => .ok []
    | .error error => .error error
    | .ok entries => do
      let here ← layout.jsonEntries path entries
      return here ++ (← layout.searchEntries (layout.search levels) path entries)

/-- The JSON files below a directory, in the order of their paths. A path that leads to no directory
stands for itself if it names a JSON file. -/
def jsonFiles (layout : Layout) (path : Path) : Except FileError (List String) := do
  if ← layout.isDirectory path then
    let found ← layout.search Host.directoryLevels path
    return found.mergeSort Host.precedes
  else return if path.suffix = ".json" then [path.text] else []

end Layout

end TreeLint
