import TreeLint.Text.Integer
import TreeLint.Host

/-! Reading JSON. The values that are no numbers of arithmetic are admitted, and a repeated key of
an object keeps its first place and its last value. The reader keeps a stack of the containers that
are open; an error tells the place in the text at which it was found. -/

namespace TreeLint.Json

inductive Problem where
  | byteOrderMark
  | noValue
  | noName
  | noColon
  | noComma
  | extraData
  | unterminated
  | controlCharacter
  | badEscape
  | badUnicodeEscape
  deriving DecidableEq

def Problem.message : Problem → String
  | byteOrderMark => "Unexpected UTF-8 BOM (decode using utf-8-sig)"
  | noValue => "Expecting value"
  | noName => "Expecting property name enclosed in double quotes"
  | noColon => "Expecting ':' delimiter"
  | noComma => "Expecting ',' delimiter"
  | extraData => "Extra data"
  | unterminated => "Unterminated string starting at"
  | controlCharacter => "Invalid control character at"
  | badEscape => "Invalid \x5cescape"
  | badUnicodeEscape => "Invalid \x5cuXXXX escape"

inductive Error where
  /-- A problem, with the offset at which it was found and its line and column. -/
  | malformed (problem : Problem) (offset line column : Nat)
  /-- Containers are nested too deeply. -/
  | tooDeep
  /-- An integer has too many digits. -/
  | longInteger (digits : Nat)
  deriving DecidableEq

/-- Why reading stopped; the place is told by the number of characters left. -/
inductive Stop where
  | at (problem : Problem) (left : Nat)
  | tooDeep
  | longInteger (digits : Nat)

def isSpace (c : Char) : Bool := c = ' ' || c = '\t' || c = '\n' || c = '\r'

/-- The text after the white space at its start. -/
def skip (cs : List Char) : List Char := cs.dropWhile isSpace

def hexValue? (c : Char) : Option Nat :=
  if '0' ≤ c && c ≤ '9' then some (c.toNat - 48)
  else if 'a' ≤ c && c ≤ 'f' then some (c.toNat - 87)
  else if 'A' ≤ c && c ≤ 'F' then some (c.toNat - 55)
  else none

/-- The number that four hexadecimal digits spell, and the text after them. The text must go on
after the digits. -/
def unit? : List Char → Option (Nat × List Char)
  | a :: b :: c :: d :: e :: rest => do
    let n := ((← hexValue? a) * 16 + (← hexValue? b)) * 256 + (← hexValue? c) * 16 + (← hexValue? d)
    return (n, e :: rest)
  | _ => none

/-- The character of an escape by number, given the text after the `u`. Two escapes make one
character where they are a surrogate pair; for half of a pair alone the host has a character. -/
def unicodeEscape [Host] (cs : List Char) : Except Stop (Char × List Char) :=
  match unit? cs with
  | none => .error (.at .badUnicodeEscape (cs.length + 1))
  | some (high, rest) =>
    if 0xD800 ≤ high && high < 0xDC00 then
      match rest with
      | '\x5c' :: 'u' :: more =>
        if more.length < 5 then .ok (Host.standIn high, rest)
        else match unit? more with
          | none => .error (.at .badUnicodeEscape (more.length + 1))
          | some (low, tail) =>
            if 0xDC00 ≤ low && low < 0xE000 then
              .ok (Char.ofNat (0x10000 + (high - 0xD800) * 0x400 + (low - 0xDC00)), tail)
            else .ok (Host.standIn high, rest)
      | _ => .ok (Host.standIn high, rest)
    else if 0xDC00 ≤ high && high < 0xE000 then .ok (Host.standIn high, rest)
    else .ok (Char.ofNat high, rest)

def escapeOf? (c : Char) : Option Char :=
  if c = '\x22' || c = '\x5c' || c = '/' then some c
  else if c = 'b' then some '\x08'
  else if c = 'f' then some '\x0c'
  else if c = 'n' then some '\n'
  else if c = 'r' then some '\r'
  else if c = 't' then some '\t'
  else none

/-- Read a string up to its closing quotation mark. `opening` tells the place of the other mark and
`done` holds the characters read so far, the last one first. -/
def readString [Host] (opening : Nat) : Nat → List Char → List Char → Except Stop (String × List Char)
  | 0, _, _ => .error (.at .unterminated opening)
  | fuel + 1, done, cs => match cs with
    | [] => .error (.at .unterminated opening)
    | '\x22' :: rest => .ok (String.ofList done.reverse, rest)
    | '\x5c' :: rest => match rest with
      | [] => .error (.at .unterminated opening)
      | 'u' :: digits => match unicodeEscape digits with
        | .error stop => .error stop
        | .ok (c, tail) => readString opening fuel (c :: done) tail
      | letter :: tail => match escapeOf? letter with
        | none => .error (.at .badEscape (rest.length + 1))
        | some c => readString opening fuel (c :: done) tail
    | c :: rest =>
      if c.toNat < 0x20 then .error (.at .controlCharacter (rest.length + 1))
      else readString opening fuel (c :: done) rest

/-- Read a string, given the text after its opening quotation mark. -/
def string [Host] (cs : List Char) : Except Stop (String × List Char) :=
  readString (cs.length + 1) (cs.length + 1) [] cs

def isDigit (c : Char) : Bool := '0' ≤ c && c ≤ '9'

def valueOf (digits : List Char) : Nat := Text.ofDigits (digits.map (·.toNat - 48))

/-- The digits before a point: a zero, or digits that do not start with one. -/
def wholeDigits : List Char → List Char × List Char
  | '0' :: rest => (['0'], rest)
  | cs => (cs.takeWhile isDigit, cs.dropWhile isDigit)

def fractionDigits : List Char → List Char × List Char
  | '.' :: rest =>
    if (rest.head?.any isDigit) then (rest.takeWhile isDigit, rest.dropWhile isDigit)
    else ([], '.' :: rest)
  | cs => ([], cs)

def exponentDigits (cs : List Char) : Option (Int × List Char) :=
  let signed := fun (negative : Bool) (rest : List Char) =>
    if rest.head?.any isDigit then
      let n : Int := valueOf (rest.takeWhile isDigit)
      some (if negative then -n else n, rest.dropWhile isDigit)
    else none
  match cs with
  | e :: rest =>
    if e = 'e' || e = 'E' then
      match rest with
      | '-' :: tail => signed true tail
      | '+' :: tail => signed false tail
      | tail => signed false tail
    else none
  | [] => none

def unsigned (negative : Bool) (cs : List Char) : Except Stop (Option (Value × List Char)) :=
  let (whole, rest) := wholeDigits cs
  if whole.isEmpty then .ok none
  else
    let (fraction, afterFraction) := fractionDigits rest
    let exponent := exponentDigits afterFraction
    if fraction.isEmpty && exponent.isNone then
      if Text.digitLimit < whole.length then .error (.longInteger whole.length)
      else
        let n : Int := valueOf whole
        .ok (some (.int (if negative then -n else n), rest))
    else
      let (power, tail) := exponent.getD (0, afterFraction)
      let digits := whole ++ fraction
      .ok (some (.float (Binary64.ofDecimal negative (valueOf digits) digits.length
        (power - fraction.length)), tail))

def words : List (List Char × Value) :=
  [("null".toList, .null), ("true".toList, .bool true), ("false".toList, .bool false),
   ("NaN".toList, .float .nan), ("Infinity".toList, .float (.infinite false)),
   ("-Infinity".toList, .float (.infinite true))]

def scalar (cs : List Char) : Except Stop (Value × List Char) :=
  match words.find? fun (word, _) => word.isPrefixOf cs with
  | some (word, v) => .ok (v, cs.drop word.length)
  | none => do
    let number ← match cs with
      | '-' :: rest => unsigned true rest
      | rest => unsigned false rest
    match number with
    | some found => return found
    | none => .error (.at .noValue cs.length)

/-- A container that is open: what it holds so far, the last first, and in an object the key of the
value that comes next. -/
inductive Frame where
  | list (done : List Value)
  | object (done : List (String × Value)) (key : String)

inductive State where
  /-- Read a value. -/
  | expect
  /-- Put a value where it belongs. -/
  | complete (v : Value)

def readKey [Host] (cs : List Char) : Except Stop (String × List Char) :=
  match cs with
  | '\x22' :: rest => match string rest with
    | .error stop => .error stop
    | .ok (key, tail) => match skip tail with
      | ':' :: after => .ok (key, skip after)
      | other => .error (.at .noColon other.length)
  | other => .error (.at .noName other.length)

/-- Run the reader, with the open containers on a stack, the innermost first. No more containers than
`levels` may be open at once. -/
def run [Host] (levels : Nat) : Nat → List Frame → State → List Char → Except Stop (Value × List Char)
  | 0, _, _, cs => .error (.at .noValue cs.length)
  | fuel + 1, stack, .expect, cs => match cs with
    | '\x22' :: rest => match string rest with
      | .error stop => .error stop
      | .ok (s, tail) => run levels fuel stack (.complete (.str s)) tail
    | '[' :: rest =>
      if levels ≤ stack.length then .error .tooDeep
      else match skip rest with
        | ']' :: tail => run levels fuel stack (.complete (.list [])) tail
        | tail => run levels fuel (.list [] :: stack) .expect tail
    | '\x7b' :: rest =>
      if levels ≤ stack.length then .error .tooDeep
      else match skip rest with
        | '\x7d' :: tail => run levels fuel stack (.complete (.object [])) tail
        | tail => match readKey tail with
          | .error stop => .error stop
          | .ok (key, after) => run levels fuel (.object [] key :: stack) .expect after
    | other => match scalar other with
      | .error stop => .error stop
      | .ok (v, tail) => run levels fuel stack (.complete v) tail
  | fuel + 1, stack, .complete v, cs => match stack with
    | [] => .ok (v, cs)
    | .list done :: outer => match skip cs with
      | ']' :: tail => run levels fuel outer (.complete (.list (v :: done).reverse)) tail
      | ',' :: tail => run levels fuel (.list (v :: done) :: outer) .expect (skip tail)
      | other => .error (.at .noComma other.length)
    | .object done key :: outer => match skip cs with
      | '\x7d' :: tail =>
        run levels fuel outer (.complete (.object (Table.ofEntries ((key, v) :: done).reverse))) tail
      | ',' :: tail => match readKey (skip tail) with
        | .error stop => .error stop
        | .ok (next, after) => run levels fuel (.object ((key, v) :: done) next :: outer) .expect after
      | other => .error (.at .noComma other.length)

def Stop.error (text : List Char) : Stop → Error
  | .at problem left =>
    let before := text.take (text.length - left)
    .malformed problem before.length (before.count '\n' + 1)
      ((before.reverse.takeWhile (· ≠ '\n')).length + 1)
  | .tooDeep => .tooDeep
  | .longInteger digits => .longInteger digits

/-- The value that a text writes, where no more containers than `levels` are open at once. -/
def parse [Host] (levels : Nat) (text : List Char) : Except Error Value :=
  let outcome : Except Stop Value :=
    match text with
    | '\ufeff' :: rest => .error (.at .byteOrderMark (rest.length + 1))
    | _ => do
      let start := skip text
      let (v, rest) ← run levels (2 * start.length + 2) [] .expect start
      match skip rest with
      | [] => return v
      | other => .error (.at .extraData other.length)
  match outcome with
  | .ok v => .ok v
  | .error stop => .error (stop.error text)

def Error.message : Error → String
  | malformed problem offset line column =>
    problem.message ++ ": line " ++ toString line ++ " column " ++ toString column
      ++ " (char " ++ toString offset ++ ")"
  | tooDeep => "JSON nesting is too deep to decode"
  | longInteger digits => Text.digitLimitMessage digits

end TreeLint.Json
