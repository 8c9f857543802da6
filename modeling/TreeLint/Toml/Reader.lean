import TreeLint.Toml.Number
import TreeLint.Toml.Table

/-! Reading TOML documents: lines that give a key its value, and headers that open the table to
which the keys after them belong. -/

namespace TreeLint.Toml

/-- The text after a comment, which ends before the line does. -/
def afterComment (cs : List Char) : Except Error (List Char) :=
  match cs with
  | '#' :: rest => match rest.dropWhile isPlain with
    | [] => .ok []
    | '\n' :: more => .ok ('\n' :: more)
    | _ => .error .malformed
  | _ => .ok cs

/-- The text after white space, line ends and comments. -/
def skipLines : Nat → List Char → Except Error (List Char)
  | 0, cs => .ok cs
  | fuel + 1, cs => do
    let rest ← afterComment (cs.dropWhile fun c => isSpace c || c = '\n')
    match rest with
    | '\n' :: more => skipLines fuel more
    | _ => return rest

/-- The text after white space, line ends and comments within an array. -/
def skipInArray (cs : List Char) : Except Error (List Char) := skipLines cs.length cs

/-- The room that is left inside a value. An array takes two parts of it and an inline table three. -/
def roomInside (parts room : Nat) : Except Error Nat :=
  if room < parts then .error .tooDeep else .ok (room - parts)

mutual

def value (room : Nat) : Nat → List Char → Except Error (Value × List Char)
  | 0, _ => .error .malformed
  | fuel + 1, cs => match string? cs with
    | some reading => do
      let (text, rest) ← reading
      return (.str text, rest)
    | none => match cs with
      | 't' :: 'r' :: 'u' :: 'e' :: rest => .ok (.bool true, rest)
      | 'f' :: 'a' :: 'l' :: 's' :: 'e' :: rest => .ok (.bool false, rest)
      | '[' :: rest => do
        let inside ← roomInside 2 room
        match ← skipInArray rest with
        | ']' :: tail => return (.list [], tail)
        | body =>
          let (items, tail) ← arrayItems inside fuel body
          return (.list items, tail)
      | '\x7b' :: rest => do
        let inside ← roomInside 3 room
        match skip rest with
        | '\x7d' :: tail => return (.object [], tail)
        | body =>
          let (entries, tail) ← inlineEntries inside fuel [] body
          return (.object (membersOf entries), tail)
      | _ => number cs

def arrayItems (room : Nat) : Nat → List Char → Except Error (List Value × List Char)
  | 0, _ => .error .malformed
  | fuel + 1, cs => do
    let (v, rest) ← value room fuel cs
    match ← skipInArray rest with
    | ']' :: tail => return ([v], tail)
    | ',' :: more => match ← skipInArray more with
      | ']' :: tail => return ([v], tail)
      | body =>
        let (items, tail) ← arrayItems room fuel body
        return (v :: items, tail)
    | _ => .error .malformed

def inlineEntries (room : Nat) : Nat → Entries → List Char → Except Error (Entries × List Char)
  | 0, _, _ => .error .malformed
  | fuel + 1, entries, cs => do
    let (names, rest) ← key cs
    match rest with
    | '=' :: text =>
      let (v, tail) ← value room fuel (skip text)
      match Entries.define 0 v names entries with
      | none => .error .malformed
      | some entries => match skip tail with
        | '\x7d' :: after => return (entries, after)
        | ',' :: more => inlineEntries room fuel entries (skip more)
        | _ => .error .malformed
    | _ => .error .malformed

end

/-- A document as far as it has been read: its entries, the names of the header at hand, and the
number of headers so far. -/
structure Progress where
  entries : Entries
  header : List String
  part : Nat

namespace Progress

def withEntries (p : Progress) : Option Entries → Except Error Progress
  | some entries => .ok { p with entries }
  | none => .error .malformed

def assign (room : Nat) (p : Progress) (cs : List Char) : Except Error (Progress × List Char) := do
  let (names, rest) ← key cs
  match rest with
  | '=' :: text =>
    let (v, tail) ← value room (cs.length + 1) (skip text)
    return (← p.withEntries (Entries.within (Entries.define p.part v names) p.header p.entries),
      tail)
  | _ => .error .malformed

/-- Go on under a header, which makes a change to the table that holds the one of its last name. -/
def enter (p : Progress) (names : List String) (change : String → Entries → Option Entries) :
    Except Error Progress :=
  { p with header := names, part := p.part + 1 }.withEntries
    (Entries.within (change (names.getLastD "")) names.dropLast p.entries)

/-- Read a header, given the text after its opening bracket. -/
def head (p : Progress) : List Char → Except Error (Progress × List Char)
  | '[' :: cs => do
    match ← key (skip cs) with
    | (names, ']' :: ']' :: rest) => return (← p.enter names Entries.append?, rest)
    | _ => .error .malformed
  | cs => do
    match ← key (skip cs) with
    | (names, ']' :: rest) => return (← p.enter names Entries.open?, rest)
    | _ => .error .malformed

def lines (room : Nat) : Nat → Progress → List Char → Except Error Progress
  | 0, p, _ => .ok p
  | fuel + 1, p, cs => match skip cs with
    | [] => .ok p
    | '\n' :: rest => lines room fuel p rest
    | body => do
      let (p, tail) ← match body with
        | '[' :: rest => p.head rest
        | '#' :: _ => pure (p, body)
        | _ => p.assign room body
      match ← afterComment (skip tail) with
      | [] => return p
      | '\n' :: rest => lines room fuel p rest
      | _ => .error .malformed

end Progress

/-- The pair of carriage return and line feed becomes a line feed. -/
def withShortLineEnds : List Char → List Char
  | [] => []
  | '\r' :: '\n' :: rest => '\n' :: withShortLineEnds rest
  | c :: rest => c :: withShortLineEnds rest

/-- The table that a document writes, where there is some room for nested values. -/
def parse (room : Nat) (text : List Char) : Except Error Members := do
  let cs := withShortLineEnds text
  return membersOf (← Progress.lines room (cs.length + 1) ⟨[], [], 0⟩ cs).entries

end TreeLint.Toml
