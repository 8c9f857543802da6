import TreeLint.Toml.Text

/-! Numbers, dates and times in TOML documents. A single underscore may stand between two digits. Of
the digits after the point of a second six count. -/

namespace TreeLint.Toml

/-- The digits that go on a run of digits, and the text after them. -/
def moreDigits (isDigit : Char → Bool) : List Char → List Char × List Char
  | [] => ([], [])
  | '_' :: rest =>
    if rest.head?.any isDigit then moreDigits isDigit rest else ([], '_' :: rest)
  | c :: rest =>
    if isDigit c then
      let (digits, tail) := moreDigits isDigit rest
      (c :: digits, tail)
    else ([], c :: rest)

def digits? (isDigit : Char → Bool) (cs : List Char) : Option (List Char × List Char) :=
  if cs.head?.any isDigit then some (moreDigits isDigit cs) else none

def inBase (base : Nat) (digits : List Char) : Nat :=
  (digits.filterMap Json.hexValue?).foldl (fun n d => base * n + d) 0

/-- An integer in base 16, 8 or 2, after a mark for the base. -/
def based? : List Char → Option (Value × List Char)
  | '0' :: mark :: rest => do
    let base ← if mark = 'x' then some 16 else if mark = 'o' then some 8
      else if mark = 'b' then some 2 else none
    let (digits, tail) ← digits? (fun c => (Json.hexValue? c).any (· < base)) rest
    return (.int (inBase base digits), tail)
  | _ => none

def signed : List Char → Bool × List Char
  | '-' :: rest => (true, rest)
  | '+' :: rest => (false, rest)
  | cs => (false, cs)

/-- The digits before a point: a zero, or digits that do not start with one. -/
def wholeDigits? : List Char → Option (List Char × List Char)
  | '0' :: rest => some (['0'], rest)
  | cs => digits? Json.isDigit cs

def fractionDigits : List Char → List Char × List Char
  | '.' :: rest => (digits? Json.isDigit rest).getD ([], '.' :: rest)
  | cs => ([], cs)

def exponent? : List Char → Option (Int × List Char)
  | c :: rest =>
    if c = 'e' || c = 'E' then do
      let (negative, unsigned) := signed rest
      let (digits, tail) ← digits? Json.isDigit unsigned
      let n : Int := inBase 10 digits
      return (if negative then -n else n, tail)
    else none
  | [] => none

def decimal? (cs : List Char) : Option (Except Error (Value × List Char)) := do
  let (negative, unsigned) := signed cs
  let (whole, rest) ← wholeDigits? unsigned
  let (fraction, afterFraction) := fractionDigits rest
  let exponent := exponent? afterFraction
  if fraction.isEmpty && exponent.isNone then
    if Text.digitLimit < whole.length then return .error (.longInteger whole.length)
    let n : Int := inBase 10 whole
    return .ok (.int (if negative then -n else n), rest)
  else
    let (power, tail) := exponent.getD (0, afterFraction)
    let digits := whole ++ fraction
    return .ok (.float (Binary64.ofDecimal negative (inBase 10 digits) digits.length
      (power - fraction.length)), tail)

def word? (cs : List Char) : Option (Value × List Char) :=
  let (negative, unsigned) := signed cs
  match unsigned with
  | 'i' :: 'n' :: 'f' :: rest => some (.float (.infinite negative), rest)
  | 'n' :: 'a' :: 'n' :: rest => some (.float .nan, rest)
  | _ => none

def after? (c : Char) : List Char → Option (List Char)
  | d :: rest => if d = c then some rest else none
  | [] => none

def number? (count : Nat) (cs : List Char) : Option (Nat × List Char) :=
  let digits := cs.take count
  if digits.length = count && digits.all Json.isDigit then
    some (inBase 10 digits, cs.drop count)
  else none

/-- A number of two digits within bounds, and the text after it. -/
def within? (low high : Nat) (cs : List Char) : Option (Nat × List Char) := do
  let (n, rest) ← number? 2 cs
  if low ≤ n && n ≤ high then some (n, rest) else none

/-- The most digits of a part of a second that count. -/
def fractionLimit : Nat := 6

def millionths (digits : List Char) : Nat :=
  inBase 10 ((digits ++ List.replicate fractionLimit '0').take fractionLimit)

def clock? (cs : List Char) : Option (Clock × List Char) := do
  let (hour, rest) ← within? 0 23 cs
  let (minute, rest) ← within? 0 59 (← after? ':' rest)
  let (second, rest) ← within? 0 59 (← after? ':' rest)
  match rest with
  | '.' :: fraction =>
    let digits := fraction.takeWhile Json.isDigit
    if digits.isEmpty then return (⟨hour, minute, second, 0⟩, rest)
    else return (⟨hour, minute, second, millionths digits⟩, fraction.dropWhile Json.isDigit)
  | _ => return (⟨hour, minute, second, 0⟩, rest)

def minutes? (cs : List Char) : Option (Nat × List Char) := do
  let (hours, rest) ← within? 0 23 cs
  let (minutes, rest) ← within? 0 59 (← after? ':' rest)
  return (60 * hours + minutes, rest)

def ahead (cs : List Char) : Option Int × List Char :=
  match cs with
  | c :: rest =>
    if c = 'Z' || c = 'z' then (some 0, rest)
    else if c = '+' || c = '-' then match minutes? rest with
      | some (minutes, tail) =>
        let n : Int := minutes
        (some (if c = '-' then -n else n), tail)
      | none => (none, cs)
    else (none, cs)
  | [] => (none, cs)

/-- The moment of a day and of the time that follows it, if there is one, and the text after
it. -/
def momentOf (day : Day) (cs : List Char) : Moment × List Char :=
  match cs with
  | c :: rest =>
    if c = 'T' || c = 't' || c = ' ' then match clock? rest with
      | some (clock, tail) =>
        let (minutes, tail) := ahead tail
        (.both day clock minutes, tail)
      | none => (.day day, cs)
    else (.day day, cs)
  | [] => (.day day, cs)

def daysIn (year month : Nat) : Nat :=
  if month = 2 then
    if year % 4 = 0 && (year % 100 ≠ 0 || year % 400 = 0) then 29 else 28
  else if [4, 6, 9, 11].contains month then 30
  else 31

def date? (cs : List Char) : Option (Except Error (Value × List Char)) := do
  let (year, rest) ← number? 4 cs
  let (month, rest) ← number? 2 (← after? '-' rest)
  let (day, rest) ← number? 2 (← after? '-' rest)
  if 1 ≤ month && month ≤ 12 && 1 ≤ day && day ≤ 31 then
    if 1 ≤ year && day ≤ daysIn year month then
      let (moment, tail) := momentOf ⟨year, month, day⟩ rest
      return .ok (.moment moment, tail)
    else return .error .malformed
  else none

def time? (cs : List Char) : Option (Except Error (Value × List Char)) := do
  let (clock, tail) ← clock? cs
  return .ok (.moment (.clock clock), tail)

def number (cs : List Char) : Except Error (Value × List Char) :=
  ((date? cs).or ((time? cs).or (((based? cs).map Except.ok).or
    ((decimal? cs).or ((word? cs).map Except.ok))))).getD (.error .malformed)

end TreeLint.Toml
