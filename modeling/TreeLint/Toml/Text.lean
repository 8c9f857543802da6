import TreeLint.Json.Reader

/-! Texts in TOML documents: literal strings, in which nothing is escaped, and basic strings, each
on one line or on several. -/

namespace TreeLint.Toml

/-- Why a document could not be read. -/
inductive Error where
  | malformed
  /-- An integer has too many digits. -/
  | longInteger (digits : Nat)
  /-- Values are nested too deeply. -/
  | tooDeep
  deriving DecidableEq

def isSpace (c : Char) : Bool := c = ' ' || c = '\t'

def skip (cs : List Char) : List Char := cs.dropWhile isSpace

/-- Characters that need no escape within a line; control characters do, but for the tab. -/
def isPlain (c : Char) : Bool := c = '\t' || (0x20 ≤ c.toNat && c.toNat ≠ 0x7F)

def literal (cs : List Char) : Except Error (String × List Char) :=
  let inside := fun (c : Char) => c ≠ '\x27' && isPlain c
  match cs.dropWhile inside with
  | '\x27' :: rest => .ok (String.ofList (cs.takeWhile inside), rest)
  | _ => .error .malformed

/-- Read a literal string of several lines up to its closing marks. `done` holds the characters
read so far, the last one first. -/
def longLiteral (done : List Char) : List Char → Except Error (List Char × List Char)
  | [] => .error .malformed
  | '\x27' :: '\x27' :: '\x27' :: rest => .ok (done.reverse, rest)
  | c :: rest =>
    if isPlain c || c = '\n' then longLiteral (c :: done) rest else .error .malformed

def escapeOf? (c : Char) : Option Char :=
  if c = '\x22' || c = '\x5c' then some c
  else if c = 'b' then some '\x08'
  else if c = 't' then some '\t'
  else if c = 'n' then some '\n'
  else if c = 'f' then some '\x0c'
  else if c = 'r' then some '\r'
  else none

/-- The character whose number is spelled by a count of hexadecimal digits. -/
def numbered (count : Nat) (cs : List Char) : Except Error (List Char × List Char) :=
  match (cs.take count).mapM Json.hexValue? with
  | none => .error .malformed
  | some digits =>
    let n := digits.foldl (fun n d => 16 * n + d) 0
    if digits.length = count && n.isValidChar then .ok ([Char.ofNat n], cs.drop count)
    else .error .malformed

/-- Read an escape, given the text after the backslash. In a string of several lines a backslash
at the end of a line takes away the line end and the white space after it. -/
def escape (long : Bool) : List Char → Except Error (List Char × List Char)
  | [] => .error .malformed
  | c :: rest =>
    let space := fun (c : Char) => isSpace c || c = '\n'
    if long && c = '\n' then .ok ([], rest.dropWhile space)
    else if long && isSpace c then match skip rest with
      | [] => .ok ([], [])
      | '\n' :: more => .ok ([], more.dropWhile space)
      | _ => .error .malformed
    else if c = 'u' then numbered 4 rest
    else if c = 'U' then numbered 8 rest
    else match escapeOf? c with
      | some escaped => .ok ([escaped], rest)
      | none => .error .malformed

/-- Read a basic string up to its closing mark or marks. -/
def basic (long : Bool) : Nat → List Char → List Char → Except Error (List Char × List Char)
  | 0, _, _ => .error .malformed
  | _ + 1, _, [] => .error .malformed
  | fuel + 1, done, c :: rest =>
    if c = '\x22' then
      if long then match rest with
        | '\x22' :: '\x22' :: tail => .ok (done.reverse, tail)
        | _ => basic long fuel (c :: done) rest
      else .ok (done.reverse, rest)
    else if c = '\x5c' then match escape long rest with
      | .error e => .error e
      | .ok (escaped, tail) => basic long fuel (escaped.reverse ++ done) tail
    else if isPlain c || (long && c = '\n') then basic long fuel (c :: done) rest
    else .error .malformed

def shortBasic (cs : List Char) : Except Error (String × List Char) := do
  let (text, rest) ← basic false (cs.length + 1) [] cs
  return (String.ofList text, rest)

/-- Up to two marks more than the three that close a string belong to the string. -/
def withExtraMarks (mark : Char) (text rest : List Char) : String × List Char :=
  let extra := (rest.take 2).takeWhile (· = mark)
  (String.ofList (text ++ extra), rest.drop extra.length)

/-- The text after the line end at its start, if there is one. -/
def dropLineFeed : List Char → List Char
  | '\n' :: rest => rest
  | cs => cs

/-- Read a string, given the text from its opening mark on; none if it opens no string. -/
def string? : List Char → Option (Except Error (String × List Char))
  | '\x22' :: '\x22' :: '\x22' :: rest => some do
    let body := dropLineFeed rest
    let (text, tail) ← basic true (body.length + 1) [] body
    return withExtraMarks '\x22' text tail
  | '\x22' :: rest => some (shortBasic rest)
  | '\x27' :: '\x27' :: '\x27' :: rest => some do
    let (text, tail) ← longLiteral [] (dropLineFeed rest)
    return withExtraMarks '\x27' text tail
  | '\x27' :: rest => some (literal rest)
  | _ => none

def isBare (c : Char) : Bool :=
  ('a' ≤ c && c ≤ 'z') || ('A' ≤ c && c ≤ 'Z') || Json.isDigit c || c = '-' || c = '_'

def keyPart : List Char → Except Error (String × List Char)
  | '\x22' :: rest => shortBasic rest
  | '\x27' :: rest => literal rest
  | cs =>
    if cs.head?.any isBare then .ok (String.ofList (cs.takeWhile isBare), cs.dropWhile isBare)
    else .error .malformed

/-- Read a key: names with points between them. -/
def keyFrom : Nat → List Char → Except Error (List String × List Char)
  | 0, _ => .error .malformed
  | fuel + 1, cs => do
    let (name, tail) ← keyPart cs
    match skip tail with
    | '.' :: rest =>
      let (names, after) ← keyFrom fuel (skip rest)
      return (name :: names, after)
    | after => return ([name], after)

def key (cs : List Char) : Except Error (List String × List Char) := keyFrom (cs.length + 1) cs

end TreeLint.Toml
