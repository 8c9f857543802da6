/-! What a name says about the function that it names, by the conventions of React. -/

namespace TreeLint

/-- The kinds of functions that names tell apart. -/
inductive NameShape where
  | component
  | hook
  | rootFunction
  deriving DecidableEq

namespace NameShape

def text : NameShape → String
  | component => "component"
  | hook => "hook"
  | rootFunction => "root-function"

def isCapital (c : Char) : Bool := 'A' ≤ c && c ≤ 'Z'

def isNumeral (c : Char) : Bool := '0' ≤ c && c ≤ '9'

def isComponentName (name : Option String) : Bool :=
  match name.map String.toList with
  | some (c :: _) => isCapital c
  | _ => false

/-- Names of hooks are `use` and then a capital or a digit. -/
def isHookName (name : Option String) : Bool :=
  match name.map String.toList with
  | some ('u' :: 's' :: 'e' :: c :: _) => isCapital c || isNumeral c
  | _ => false

def isRootFunctionName (name : Option String) : Bool :=
  !isComponentName name && !isHookName name

def ofName (name : Option String) : NameShape :=
  if isComponentName name then component
  else if isHookName name then hook
  else rootFunction

def anonymous : String := "(anonymous)"

/-- A name to show: `anonymous` for one that is absent or empty. -/
def shownName (name : Option String) : String := (name.filter (· != "")).getD anonymous

end NameShape

end TreeLint
