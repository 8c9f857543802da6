import TreeLint.Json.Writer

/-! Values as keys of a table. Numbers that are equal are one key, of whatever kind they are, and
truth values count as zero and one. Lists and objects are no keys. -/

namespace TreeLint

inductive Key where
  | null
  | text (s : String)
  /-- A whole number. -/
  | whole (n : Int)
  /-- Any other number. -/
  | other (x : Binary64)
  | moment (m : Moment)
  deriving DecidableEq

namespace Value

def key? : Value → Option Key
  | .null => some .null
  | .bool b => some (.whole (if b then 1 else 0))
  | .int n => some (.whole n)
  | .float x => some (match x.whole? with
    | some n => .whole n
    | none => .other x)
  | .str s => some (.text s)
  | .moment m => some (.moment m)
  | .list _ | .object _ => none

def keyText [Host] : Value → String
  | .str s => s
  | v => Json.compact v

end Value

end TreeLint
