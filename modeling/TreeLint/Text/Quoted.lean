import TreeLint.Text.Printable

/-! Quoted texts, as messages show them. Single quotes are the default and double quotes serve a
text that holds single quotes only; the mark, the backslash and every hidden character are
escaped. -/

namespace TreeLint.Text

def hexDigit (n : Nat) : Char := Char.ofNat (if n < 10 then 48 + n else 87 + n)

/-- The last `width` hexadecimal digits of a number. -/
def hex (n : Nat) : Nat → List Char
  | 0 => []
  | width + 1 => hex (n / 16) width ++ [hexDigit (n % 16)]

def quotationMark (cs : List Char) : Char :=
  if cs.contains '\x27' && !cs.contains '\x22' then '\x22' else '\x27'

def quotedChar (mark c : Char) : List Char :=
  if c = mark || c = '\x5c' then ['\x5c', c]
  else if c = '\n' then ['\x5c', 'n']
  else if c = '\r' then ['\x5c', 'r']
  else if c = '\t' then ['\x5c', 't']
  else if isPrintable c then [c]
  else if c.toNat < 0x100 then '\x5c' :: 'x' :: hex c.toNat 2
  else if c.toNat < 0x10000 then '\x5c' :: 'u' :: hex c.toNat 4
  else '\x5c' :: 'U' :: hex c.toNat 8

/-- A character between quotation marks, where `half?` tells which characters stand for half of a
surrogate pair. -/
def quotedUnit (half? : Char → Option Nat) (mark c : Char) : List Char :=
  match half? c with
  | some half => '\x5c' :: 'u' :: hex half 4
  | none => quotedChar mark c

def quoted (half? : Char → Option Nat) (s : String) : String :=
  let mark := quotationMark s.toList
  String.ofList (mark :: (s.toList.flatMap (quotedUnit half? mark) ++ [mark]))

end TreeLint.Text
