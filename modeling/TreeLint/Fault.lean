import TreeLint.Text.Integer
import TreeLint.Text.Quoted

/-! Faults: what stops a reading of data that has not the shape it should have. A fault names its
cause; the wording of the causes that carry one is in `message?`. -/

namespace TreeLint

/-- Why data could not be read. -/
inductive Fault where
  /-- A field was asked of something that is not a node. -/
  | noFields
  /-- A file without a name was asked for it. -/
  | noName
  /-- A value was used in a way that its kind does not allow. -/
  | wrongKind
  /-- An entry was asked that the table does not have. -/
  | noEntry (key : String)
  /-- A table was asked for the item at a place, as a list is. -/
  | noPlace (index : Nat)
  /-- A text was to spell an integer and does not. -/
  | noInteger (text : String)
  /-- An integer was written with too many digits. -/
  | longInteger (digits : Nat)
  /-- An integer is too large to be written. -/
  | hugeInteger
  /-- Data is nested too deeply. -/
  | tooDeep
  /-- The whole part of a number that is none was asked. -/
  | wholePartOfNan
  /-- The whole part of an infinite number was asked. -/
  | wholePartOfInfinity
  /-- A path pattern cannot be understood. -/
  | badPattern (pattern : String)
  /-- A path pattern holds a character range that ends before it starts. -/
  | badRange
  deriving DecidableEq

abbrev Read := Except Fault

namespace Fault

/-- The most characters of a quoted text that a message shows. -/
def excerptLimit : Nat := 200

/-- The start of a quoted text, which may lack its closing mark. -/
def excerpt (half? : Char → Option Nat) (text : String) : String :=
  String.ofList ((Text.quoted half? text).toList.take excerptLimit)

def message? (half? : Char → Option Nat) : Fault → Option String
  | noFields | noName | wrongKind | tooDeep | wholePartOfInfinity | badRange => none
  | noEntry key => some (Text.quoted half? key)
  | noPlace index => some (toString index)
  | noInteger text => some ("invalid literal for int() with base 10: " ++ excerpt half? text)
  | longInteger digits => some (Text.digitLimitMessage digits)
  | hugeInteger => some Text.unwritableMessage
  | wholePartOfNan => some "cannot convert float NaN to integer"
  | badPattern pattern => some ("Invalid git pattern: " ++ Text.quoted half? pattern)

end Fault

end TreeLint
