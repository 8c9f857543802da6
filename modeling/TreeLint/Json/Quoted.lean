import TreeLint.Text.Quoted

/-! Texts in JSON, written in ASCII alone: a character outside the printable ASCII range is escaped,
by its UTF-16 units where no short escape exists. -/

namespace TreeLint.Json

def unitEscape (unit : Nat) : List Char := '\x5c' :: 'u' :: Text.hex unit 4

def escaped (c : Char) : List Char :=
  if c = '\x22' || c = '\x5c' then ['\x5c', c]
  else if c = '\n' then ['\x5c', 'n']
  else if c = '\r' then ['\x5c', 'r']
  else if c = '\t' then ['\x5c', 't']
  else if c = '\x08' then ['\x5c', 'b']
  else if c = '\x0c' then ['\x5c', 'f']
  else if ' ' ≤ c && c ≤ '~' then [c]
  else if c.toNat < 0x10000 then unitEscape c.toNat
  else
    let rest := c.toNat - 0x10000
    unitEscape (0xD800 + rest / 0x400) ++ unitEscape (0xDC00 + rest % 0x400)

/-- A character between quotation marks, where `half?` tells which characters stand for half of a
surrogate pair. -/
def escapedUnit (half? : Char → Option Nat) (c : Char) : List Char :=
  match half? c with
  | some half => unitEscape half
  | none => escaped c

def quoted (half? : Char → Option Nat) (s : String) : String :=
  String.ofList ('\x22' :: (s.toList.flatMap (escapedUnit half?) ++ ['\x22']))

end TreeLint.Json
