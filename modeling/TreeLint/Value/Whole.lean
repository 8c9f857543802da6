import TreeLint.Fault
import TreeLint.Text.Integer
import TreeLint.Value.Basic

/-! Values used as numbers and as sequences. Positions may be serialized as truth values, which
count as zero and one and are shown as they were written. -/

namespace TreeLint

/-- A whole number, or a truth value that stands for one. -/
inductive Ordinal where
  | int (n : Int)
  | flag (b : Bool)
  deriving DecidableEq, Inhabited

namespace Ordinal

def value : Ordinal → Int
  | int n => n
  | flag b => if b then 1 else 0

def toValue : Ordinal → Value
  | int n => .int n
  | flag b => .bool b

instance : Coe Int Ordinal := ⟨int⟩

end Ordinal

namespace Value

/-- The value as a position, if it is a whole number or a truth value. -/
def ordinal? : Value → Option Ordinal
  | .int n => some (.int n)
  | .bool b => some (.flag b)
  | _ => none

/-- The whole part of a number, or the integer that a text spells. -/
def whole : Value → Read Int
  | .int n => .ok n
  | .bool b => .ok (if b then 1 else 0)
  | .float .nan => .error .wholePartOfNan
  | .float (.infinite _) => .error .wholePartOfInfinity
  | .float (.finite negative mantissa exponent) =>
    .ok (Binary64.truncate negative mantissa exponent)
  | .str s => match Text.readInteger s with
    | .value n => .ok n
    | .malformed => .error (.noInteger s)
    | .tooLong digits => .error (.longInteger digits)
  | .null | .moment _ | .list _ | .object _ => .error .wrongKind

/-- What a value consists of: the items of a list, the characters of a text, the keys of an
object. -/
def items : Value → Read (List Value)
  | .list xs => .ok xs
  | .str s => .ok (s.toList.map fun c => .str (String.singleton c))
  | .object members => .ok (members.map fun (key, _) => .str key)
  | .null | .bool _ | .int _ | .float _ | .moment _ => .error .wrongKind

/-- What a value consists of, where every value that is not truthy stands for no items. -/
def itemsOrNone (v : Value) : Read (List Value) := if v.isTruthy then v.items else .ok []

end Value

end TreeLint
