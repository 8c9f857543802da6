import TreeLint.Shape.Name
import TreeLint.Text.Basic

/-! The spellings that names are checked against. A line feed at the very end of a name does not
count. -/

namespace TreeLint.Spelling

/-- A text without the line feed at its end. -/
def withoutFinalFeed (cs : List Char) : List Char :=
  if cs.getLast? = some '\n' then cs.dropLast else cs

def isSmall (c : Char) : Bool := 'a' ≤ c && c ≤ 'z'

def isAlphanumeric (c : Char) : Bool :=
  NameShape.isCapital c || isSmall c || NameShape.isNumeral c

/-- Words of small letters and digits with single hyphens between them. -/
def isKebab (cs : List Char) : Bool :=
  (Text.pieces '-' (withoutFinalFeed cs)).all fun word =>
    !word.isEmpty && word.all fun c => isSmall c || NameShape.isNumeral c

/-- The part of a file name that is checked: up to the first dot. -/
def isKebabFileName (name : String) : Bool := isKebab (name.toList.takeWhile (· ≠ '.'))

/-- A capital, and then capitals, digits and underscores. -/
def isAllCaps (name : String) : Bool :=
  match withoutFinalFeed name.toList with
  | [] => false
  | c :: rest => NameShape.isCapital c &&
      rest.all fun c => NameShape.isCapital c || NameShape.isNumeral c || c = '_'

/-- Letters and digits that start with a given letter and a capital, or end in `Props`. -/
def isTypeName (mark : Char) (name : String) : Bool :=
  let cs := withoutFinalFeed name.toList
  let marked := match cs with
    | first :: second :: _ => first == mark && NameShape.isCapital second
    | _ => false
  cs.all isAlphanumeric && (marked || (5 < cs.length && "Props".toList.isSuffixOf cs))

end TreeLint.Spelling
