/-! Binary floating-point numbers of double width, as exact values: a sign, a whole mantissa and a
power of two. Decimal texts are read with one rounding, to the nearest number and to the even
mantissa between two. -/

namespace TreeLint

/-- A double-width number. A finite one is `mantissa * 2 ^ exponent`, with fewer than 54 bits in
the mantissa and the exponent as small as the format and the mantissa allow. -/
inductive Binary64 where
  | nan
  | infinite (negative : Bool)
  | finite (negative : Bool) (mantissa : Nat) (exponent : Int)
  deriving DecidableEq, Inhabited

namespace Binary64

def minExponent : Int := -1074

def maxExponent : Int := 971

def isZero : Binary64 → Bool
  | finite _ mantissa _ => mantissa == 0
  | _ => false

def twoTo (n : Nat) : Nat := Nat.pow 2 n

def tenTo (n : Nat) : Nat := Nat.pow 10 n

/-- The nearest whole number to `num / den`, the even one of two. -/
def roundQuotient (num den : Nat) : Nat :=
  let q := num / den
  let twice := 2 * (num % den)
  if twice < den then q else if den < twice then q + 1 else q + q % 2

/-- The fraction `num * 2 ^ (-exponent) / den`, as numerator and denominator. -/
def scaled (num den : Nat) (exponent : Int) : Nat × Nat :=
  if 0 ≤ exponent then (num, den * twoTo exponent.toNat) else (num * twoTo (-exponent).toNat, den)

/-- The number nearest to `num / den`. -/
def ofRatio (negative : Bool) (num den : Nat) : Binary64 :=
  if num = 0 then finite negative 0 minExponent
  else
    let least := (Nat.log2 num : Int) - Nat.log2 den - 53
    let fits := fun e => let (n, d) := scaled num den e; n < d * twoTo 53
    let e := max (if fits least then least else least + 1) minExponent
    let (n, d) := scaled num den e
    let m := roundQuotient n d
    let (m, e) := if m = twoTo 53 then (twoTo 52, e + 1) else (m, e)
    if maxExponent < e then infinite negative else finite negative m e

/-- The number nearest to `digits * 10 ^ power`, where `places` bounds the digits written. -/
def ofDecimal (negative : Bool) (digits places : Nat) (power : Int) : Binary64 :=
  if digits = 0 then finite negative 0 minExponent
  else if 400 < power then infinite negative
  else if power + places < -400 then finite negative 0 minExponent
  else if 0 ≤ power then ofRatio negative (digits * tenTo power.toNat) 1
  else ofRatio negative digits (tenTo (-power).toNat)

def truncate (negative : Bool) (mantissa : Nat) (exponent : Int) : Int :=
  let whole := if 0 ≤ exponent then mantissa * twoTo exponent.toNat
    else mantissa / twoTo (-exponent).toNat
  if negative then -whole else whole

/-- The whole number that a number is, if it is one. -/
def whole? : Binary64 → Option Int
  | finite negative mantissa exponent =>
    if 0 ≤ exponent || mantissa % twoTo (-exponent).toNat = 0 then
      some (truncate negative mantissa exponent)
    else none
  | _ => none

end Binary64

end TreeLint
