import TreeLint.Binary64.Shortest
import TreeLint.Json.Quoted
import TreeLint.Host

/-! Writing JSON: on one line, or with every item on a line of its own and two blanks for each
level. Empty containers stay on one line. A moment, for which JSON has no form, is written as a
text. -/

namespace TreeLint.Json

/-- A binary number; those that are no numbers of arithmetic are words. -/
def floatText : Binary64 → String
  | .nan => "NaN"
  | .infinite negative => if negative then "-Infinity" else "Infinity"
  | x => x.text

/-- What comes before an item at a level: nothing on one line, else a line feed and blanks. -/
def lineStart (level : Option Nat) : String :=
  match level with
  | none => ""
  | some n => "\n" ++ "".pushn ' ' (2 * n)

def comma (level : Option Nat) : String := if level.isSome then "," else ", "

variable [Host]

mutual

/-- Write a value after a text, where `level` is its level on many lines. -/
def write (level : Option Nat) (out : String) : Value → String
  | .null => out ++ "null"
  | .bool b => out ++ if b then "true" else "false"
  | .int n => out ++ toString n
  | .float x => out ++ floatText x
  | .str s => out ++ quoted Host.half? s
  | .moment m => out ++ quoted Host.half? m.text
  | .list [] => out ++ "[]"
  | .list (item :: rest) =>
    let inner := level.map (· + 1)
    writeItems inner (write inner (out ++ "[" ++ lineStart inner) item) rest ++ lineStart level ++ "]"
  | .object [] => out ++ "\x7b\x7d"
  | .object ((key, v) :: rest) =>
    let inner := level.map (· + 1)
    writeMembers inner
      (write inner (out ++ "\x7b" ++ lineStart inner ++ quoted Host.half? key ++ ": ") v) rest
      ++ lineStart level ++ "\x7d"

def writeItems (level : Option Nat) (out : String) : List Value → String
  | [] => out
  | item :: rest => writeItems level (write level (out ++ comma level ++ lineStart level) item) rest

def writeMembers (level : Option Nat) (out : String) : List (String × Value) → String
  | [] => out
  | (key, v) :: rest =>
    writeMembers level
      (write level (out ++ comma level ++ lineStart level ++ quoted Host.half? key ++ ": ") v) rest

end

def compact (v : Value) : String := write none "" v

def indented (v : Value) : String := write (some 0) "" v

end TreeLint.Json
