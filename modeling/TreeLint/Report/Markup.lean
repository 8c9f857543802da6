/-! Texts on a console. Characters that would move the cursor are left out. A line may hold tags in
brackets; in a text that is put into such a line, what looks like a tag is shown as it is, while
any other bracket swallows one backslash before it. -/

namespace TreeLint.Report

/-- Characters that a console would act on: the bell, the backspace, the vertical tab, the form feed
and the carriage return. -/
def isCursorControl (c : Char) : Bool := [0x07, 0x08, 0x0B, 0x0C, 0x0D].contains c.toNat

/-- A text without the characters that a console would act on. -/
def visible (s : String) : String := String.ofList (s.toList.filter (!isCursorControl ·))

def isTagStart (c : Char) : Bool := ('a' ≤ c && c ≤ 'z') || c = '#' || c = '/' || c = '@'

/-- Whether the text after an opening bracket makes it that of a tag, which ends at the next bracket
and not in another opening one. -/
def opensTag : List Char → Bool
  | c :: rest => isTagStart c && (rest.dropWhile fun c => c ≠ '[' && c ≠ ']').head? == some ']'
  | [] => false

/-- The pieces of a text: what looks like a tag, and what stands between such. `done` holds the
characters of the piece at hand, the last one first. -/
def pieces (inTag : Bool) (done : List Char) : List Char → List (List Char)
  | [] => [done.reverse]
  | c :: rest =>
    if inTag && c = ']' then (c :: done).reverse :: pieces false [] rest
    else if c = '[' && opensTag rest then done.reverse :: pieces true [c] rest
    else pieces inTag (c :: done) rest

/-- A text without the backslashes that brackets swallow. -/
def swallowed : List Char → List Char
  | '\x5c' :: '[' :: rest => '[' :: swallowed rest
  | c :: rest => c :: swallowed rest
  | [] => []

/-- A single backslash at the end of a text is doubled. -/
def withEvenEnd (cs : List Char) : List Char :=
  match cs.reverse with
  | '\x5c' :: '\x5c' :: _ => cs
  | '\x5c' :: _ => cs ++ ['\x5c']
  | _ => cs

/-- A text as it is shown within a line with tags. -/
def inMarkup (s : String) : String :=
  visible (String.ofList ((pieces false [] (withEvenEnd s.toList)).flatMap swallowed))

end TreeLint.Report
