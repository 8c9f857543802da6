import TreeLint.Text.Blank
import TreeLint.Text.Digit
import TreeLint.Text.Basic

/-! Integers written in a text: an optional sign and decimal digits of any script, where single
underscores may stand between digits and white space around the whole. The digits are counted
before the text after them is looked at, so that a number with too many of them is told as such
whatever follows it. -/

namespace TreeLint.Text

def digitLimit : Nat := 4300

/-- The wording of the error for an integer with too many digits; `detail` tells of their
number. -/
def limitMessage (detail : String) : String :=
  "Exceeds the limit (4300 digits) for integer string conversion" ++ detail
    ++ "; use sys.set_int_max_str_digits() to increase the limit"

/-- The wording of the error for an integer that is written with too many digits. -/
def digitLimitMessage (digits : Nat) : String :=
  limitMessage (": value has " ++ toString digits ++ " digits")

/-- The wording of the error for an integer that takes too many digits to be written. -/
def unwritableMessage : String := limitMessage ""

/-- The least number that takes too many digits to be written. -/
def leastUnwritable : Nat := Nat.pow 10 digitLimit

/-- Whether an integer can be written with the digits that there may be. -/
def isWritable (n : Int) : Bool := n.natAbs < leastUnwritable

/-- A digit, or an underscore that joins digits. -/
def isDigitOrJoint (c : Char) : Bool := c = '_' || isDecimal c

def isJoined (run : List Char) : Bool := (pieces '_' run).all (!·.isEmpty)

/-- White space that may surround an integer. The information separators may not. -/
def isMargin (c : Char) : Bool := isBlank c && !(0x1C ≤ c.toNat && c.toNat ≤ 0x1F)

def ofDigits (digits : List Nat) : Nat := digits.foldl (fun n d => 10 * n + d) 0

inductive IntegerReading where
  | value (n : Int)
  | malformed
  | tooLong (digits : Nat)

/-- The whole number that a text without a sign spells. -/
def readDigits (cs : List Char) : IntegerReading :=
  let run := cs.takeWhile isDigitOrJoint
  let digits := run.filterMap decimalValue?
  if !isJoined run then .malformed
  else if digitLimit < digits.length then .tooLong digits.length
  else if (cs.dropWhile isDigitOrJoint).all isMargin then .value (ofDigits digits)
  else .malformed

def IntegerReading.negated : IntegerReading → IntegerReading
  | value n => value (-n)
  | other => other

def readInteger (s : String) : IntegerReading :=
  match s.toList.dropWhile isMargin with
  | '-' :: rest => (readDigits rest).negated
  | '+' :: rest => readDigits rest
  | rest => readDigits rest

end TreeLint.Text
