import TreeLint.Text.Basic

/-! White space and the texts made of nothing else. The class holds the spaces and line ends of
every script and the four information separators; it does not hold zero-width characters. -/

namespace TreeLint.Text

def blankRanges : Ranges :=
  [(0x09, 0x0D), (0x1C, 0x20), (0x85, 0x85), (0xA0, 0xA0), (0x1680, 0x1680), (0x2000, 0x200A),
   (0x2028, 0x2029), (0x202F, 0x202F), (0x205F, 0x205F), (0x3000, 0x3000)]

def isBlank (c : Char) : Bool := blankRanges.contains c

def allBlank (cs : List Char) : Bool := cs.all isBlank

def strip (cs : List Char) : List Char :=
  ((cs.dropWhile isBlank).reverse.dropWhile isBlank).reverse

def stripEnd (cs : List Char) : List Char := (cs.reverse.dropWhile isBlank).reverse

def trimmed (s : String) : String := String.ofList (strip s.toList)

def isBlankString (s : String) : Bool := allBlank s.toList

end TreeLint.Text
