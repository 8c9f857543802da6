import TreeLint.Binary64.Basic

/-! The shortest decimal text that reads back as a given number. Grids of decimal fractions are
tried from coarse to fine; the first that has a point among the numbers rounding to the given one
wins, and of two such points the nearer. -/

namespace TreeLint.Binary64

/-- A finite positive number with the open or closed interval that rounds to it, all over one
denominator. -/
structure Neighbourhood where
  value : Nat
  low : Nat
  high : Nat
  den : Nat
  closed : Bool

/-- The interval around `mantissa * 2 ^ exponent`. Below a power of two the spacing halves. -/
def neighbourhood (mantissa : Nat) (exponent : Int) : Neighbourhood :=
  let low := if mantissa = twoTo 52 ∧ minExponent < exponent then 4 * mantissa - 1
    else 4 * mantissa - 2
  let (unit, den) := scaled 1 1 (2 - exponent)
  { value := 4 * mantissa * unit, low := low * unit, high := (4 * mantissa + 2) * unit, den := den,
    closed := mantissa % 2 == 0 }

/-- Whether `digits * step`, over the denominator of the neighbourhood, rounds to its value. -/
def Neighbourhood.holds (around : Neighbourhood) (factor point : Nat) : Bool :=
  if around.closed then around.low * factor ≤ point && point ≤ around.high * factor
  else around.low * factor < point && point < around.high * factor

/-- Search the grid of multiples of `10 ^ power`, then finer ones, and give the digits found with
their power of ten. -/
def Neighbourhood.search (around : Neighbourhood) : Nat → Int → Nat × Int
  | 0, power => (0, power)
  | fuel + 1, power =>
    let factor := tenTo (-power).toNat
    let step := around.den * tenTo power.toNat
    let target := around.value * factor
    let digits := target / step
    let below := around.holds factor (digits * step)
    let above := around.holds factor ((digits + 1) * step)
    let rest := target % step
    if below && above then
      (if 2 * rest < step || (2 * rest == step && digits % 2 == 0) then digits else digits + 1, power)
    else if below then (digits, power)
    else if above then (digits + 1, power)
    else around.search fuel (power - 1)

/-- The shortest digits of `mantissa * 2 ^ exponent`, with their power of ten. -/
def shortest (mantissa : Nat) (exponent : Int) : Nat × Int :=
  (neighbourhood mantissa exponent).search 30
    (((Nat.log2 mantissa : Int) + exponent) * 30103 / 100000 + 2)

/-- Digits with a point so that `digits * 10 ^ power` is meant. From 10⁻⁴ up to 10¹⁶ the text is
positional and keeps one place after the point; elsewhere it has an exponent of at least two
digits. -/
def decimalText (digits : Nat) (power : Int) : String :=
  let ds := (toString digits).toList
  let point := (ds.length : Int) + power
  let cs :=
    if -4 < point ∧ point ≤ 16 then
      if point ≤ 0 then '0' :: '.' :: (List.replicate (-point).toNat '0' ++ ds)
      else if (ds.length : Int) ≤ point then
        ds ++ List.replicate power.toNat '0' ++ ['.', '0']
      else ds.take point.toNat ++ '.' :: ds.drop point.toNat
    else
      let tail := ds.drop 1
      let exponent := (toString (point - 1).natAbs).toList
      ds.take 1 ++ (if tail.isEmpty then [] else '.' :: tail)
        ++ ['e', if point ≤ 0 then '-' else '+']
        ++ (if exponent.length < 2 then '0' :: exponent else exponent)
  String.ofList cs

/-- The shortest text that reads back as the number. -/
def text : Binary64 → String
  | nan => "nan"
  | infinite negative => if negative then "-inf" else "inf"
  | finite negative mantissa exponent =>
    let body := if mantissa = 0 then "0.0"
      else let (digits, power) := shortest mantissa exponent; decimalText digits power
    if negative then "-" ++ body else body

end TreeLint.Binary64
