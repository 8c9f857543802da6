import TreeLint.Text.Word

/-! Colors written into a text: a hash with hexadecimal digits, a call of a color function, or one
of the common color names as a word. Case does not matter, and neither does the spelling of i, k
and s with the letters that fold to them. -/

namespace TreeLint.Text.Color

def names : List String :=
  ["aliceblue", "antiquewhite", "aqua", "black", "blue", "brown", "chartreuse", "coral", "crimson",
   "cyan", "fuchsia", "gold", "gray", "green", "indigo", "ivory", "khaki", "lavender", "lime",
   "linen", "magenta", "maroon", "navy", "olive", "orange", "orchid", "peru", "pink", "plum",
   "purple", "red", "salmon", "sienna", "silver", "skyblue", "tan", "teal", "thistle", "tomato",
   "turquoise", "violet", "white", "yellow"]

def functions : List String := ["rgb", "rgba", "hsl", "hsla"]

/-- The small letter that a character stands for when case is ignored. -/
def fold (c : Char) : Char :=
  if c = '\u0130' || c = '\u0131' then 'i'
  else if c = '\u017f' then 's'
  else if c = '\u212a' then 'k'
  else c.toLower

def isHex (c : Char) : Bool :=
  ('0' ≤ c && c ≤ '9') || ('a' ≤ c && c ≤ 'f') || ('A' ≤ c && c ≤ 'F')

/-- The text after a word that it starts with, in any case. -/
def after? : List Char → List Char → Option (List Char)
  | [], cs => some cs
  | w :: word, c :: cs => if fold c = w then after? word cs else none
  | _ :: _, [] => none

def hashHere : List Char → Bool
  | '#' :: a :: b :: c :: _ => isHex a && isHex b && isHex c
  | _ => false

/-- A call of a color function stands here, with a closing parenthesis somewhere after it. -/
def callHere (cs : List Char) : Bool :=
  functions.any fun function => match after? function.toList cs with
    | some ('(' :: rest) => rest.contains ')'
    | _ => false

def endsWord (next : Option Char) : Bool := !next.any isWord

def nameHere (before : Option Char) (cs : List Char) : Bool :=
  endsWord before && names.any fun name => match after? name.toList cs with
    | some rest => endsWord rest.head?
    | none => false

/-- Whether a color stands in a text, given the character before the text. -/
def foundFrom (before : Option Char) (cs : List Char) : Bool :=
  match cs with
  | [] => false
  | c :: rest => hashHere (c :: rest) || callHere (c :: rest) || nameHere before (c :: rest)
      || foundFrom (some c) rest

def isFound (s : String) : Bool := foundFrom none s.toList

end TreeLint.Text.Color
