import TreeLint.Text.Quoted

/-! UTF-8 in its strict form: no character is written with more bytes than it needs, and surrogates
are no characters. A reading tells the first bytes that no text has. -/

namespace TreeLint.Text.Utf8

inductive Reason where
  | invalidStart
  | invalidContinuation
  | unexpectedEnd
  deriving DecidableEq

def Reason.message : Reason → String
  | invalidStart => "invalid start byte"
  | invalidContinuation => "invalid continuation byte"
  | unexpectedEnd => "unexpected end of data"

/-- The bytes at which a reading failed: the first of them, its place, and their number. -/
structure Error where
  reason : Reason
  first : UInt8
  position : Nat
  length : Nat
  deriving DecidableEq

def byteText (b : UInt8) : String := String.ofList (hex b.toNat 2)

def Error.message (e : Error) : String :=
  let place :=
    if e.length = 1 then
      "byte 0x" ++ byteText e.first ++ " in position " ++ toString e.position
    else
      "bytes in position " ++ toString e.position ++ "-" ++ toString (e.position + e.length - 1)
  "'utf-8' codec can't decode " ++ place ++ ": " ++ e.reason.message

/-- A character that has begun: its first byte, the number of its bytes so far, their bits, the
number of bytes still to come, and the range of the next one. -/
structure Pending where
  first : UInt8
  taken : Nat
  bits : Nat
  more : Nat
  low : Nat
  high : Nat

/-- The character that a byte begins, which is not a character by itself. -/
def begun? (b : UInt8) : Option Pending :=
  let n := b.toNat
  if n < 0xC2 then none
  else if n < 0xE0 then some ⟨b, 1, n - 0xC0, 1, 0x80, 0xBF⟩
  else if n < 0xF0 then
    some ⟨b, 1, n - 0xE0, 2, if n = 0xE0 then 0xA0 else 0x80, if n = 0xED then 0x9F else 0xBF⟩
  else if n < 0xF5 then
    some ⟨b, 1, n - 0xF0, 3, if n = 0xF0 then 0x90 else 0x80, if n = 0xF4 then 0x8F else 0xBF⟩
  else none

def Pending.next (p : Pending) (b : UInt8) : Pending :=
  { p with
    taken := p.taken + 1
    bits := p.bits * 64 + (b.toNat - 0x80)
    more := p.more - 1
    low := 0x80
    high := 0xBF }

/-- Read bytes from a position on. `done` holds the characters so far, the last one first. -/
def decodeFrom (position : Nat) (done : List Char) : Option Pending → List UInt8 →
    Except Error (List Char)
  | none, [] => .ok done.reverse
  | some p, [] => .error ⟨.unexpectedEnd, p.first, position - p.taken, p.taken⟩
  | none, b :: rest =>
    if b.toNat < 0x80 then decodeFrom (position + 1) (Char.ofNat b.toNat :: done) none rest
    else match begun? b with
      | none => .error ⟨.invalidStart, b, position, 1⟩
      | some p => decodeFrom (position + 1) done (some p) rest
  | some p, b :: rest =>
    if p.low ≤ b.toNat && b.toNat ≤ p.high then
      let p := p.next b
      if p.more = 0 then decodeFrom (position + 1) (Char.ofNat p.bits :: done) none rest
      else decodeFrom (position + 1) done (some p) rest
    else .error ⟨.invalidContinuation, p.first, position - p.taken, p.taken⟩

def decode (bytes : List UInt8) : Except Error (List Char) := decodeFrom 0 [] none bytes

def encodeChar (c : Char) : List UInt8 :=
  let n := c.toNat
  let continuation := fun (k : Nat) => UInt8.ofNat (0x80 + k % 64)
  if n < 0x80 then [UInt8.ofNat n]
  else if n < 0x800 then [UInt8.ofNat (0xC0 + n / 64), continuation n]
  else if n < 0x10000 then
    [UInt8.ofNat (0xE0 + n / 4096), continuation (n / 64), continuation n]
  else
    [UInt8.ofNat (0xF0 + n / 262144), continuation (n / 4096), continuation (n / 64),
     continuation n]

def encode (cs : List Char) : List UInt8 := cs.flatMap encodeChar

/-- Halves of surrogate pairs in a text, for which there are no bytes: the first of them, its position,
and how many stand there. -/
structure Halves where
  first : Nat
  position : Nat
  length : Nat
  deriving DecidableEq

def Halves.message (halves : Halves) : String :=
  let place :=
    if halves.length = 1 then
      "character '\\u" ++ String.ofList (hex halves.first 4) ++ "' in position " ++
        toString halves.position
    else
      "characters in position " ++ toString halves.position ++ "-" ++
        toString (halves.position + halves.length - 1)
  "'utf-8' codec can't encode " ++ place ++ ": surrogates not allowed"

/-- The first halves in a text but those that may pass; `half?` tells which half a character stands
for. -/
def halves? (half? : Char → Option Nat) (passes : Nat → Bool) (position : Nat) :
    List Char → Option Halves
  | [] => none
  | c :: rest => match half? c with
    | none => halves? half? passes (position + 1) rest
    | some half =>
      if passes half then halves? half? passes (position + 1) rest
      else some ⟨half, position, 1 + (rest.takeWhile fun c => (half? c).isSome).length⟩

end TreeLint.Text.Utf8
