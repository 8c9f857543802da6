import TreeLint.Fault
import TreeLint.Text.Blank
import TreeLint.Text.Basic

/-! Path patterns as version control uses them for files to ignore. A pattern without a slash
inside matches at every depth and one with a slash is anchored; two stars stand for any directories;
a leading exclamation mark turns the pattern into an exception. -/

namespace TreeLint

namespace Path

/-- A set of characters between brackets: closed ranges, or all characters outside them. -/
structure CharSet where
  negated : Bool
  ranges : List (Char × Char)
  deriving DecidableEq

def CharSet.contains (set : CharSet) (c : Char) : Bool :=
  set.negated != set.ranges.any fun (low, high) => low ≤ c && c ≤ high

inductive Token where
  /-- One given character. -/
  | char (c : Char)
  /-- One character of a set. -/
  | set (chars : CharSet)
  /-- One character other than a slash. -/
  | one
  /-- Any characters other than slashes. -/
  | many
  /-- Nothing, or any directories with the slash after them. -/
  | directories
  /-- Nothing, or a slash and any names after it. -/
  | between
  /-- The end of the path, or of the name of a directory in it. -/
  | finish
  deriving DecidableEq

inductive Shape where
  /-- The pattern is discarded: no path will do. -/
  | nothing
  /-- Any character other than a line feed. -/
  | everything
  /-- A slash somewhere. -/
  | nested
  /-- The steps, from the start of the path. -/
  | steps (tokens : List Token)
  deriving DecidableEq

/-- A pattern with its sense: to choose the paths that it matches, or to except them. -/
structure Pattern where
  excepts : Bool
  shape : Shape
  deriving DecidableEq

namespace Pattern

def afterSome (admitted : Char → Bool) (test : List Char → Bool) : List Char → Bool
  | [] => test []
  | c :: rest => test (c :: rest) || (admitted c && afterSome admitted test rest)

def inLine (c : Char) : Bool := c ≠ '\n'

def follows : List Token → List Char → Bool
  | [], _ => true
  | .char c :: tokens, cs => match cs with
    | x :: rest => x == c && follows tokens rest
    | [] => false
  | .set chars :: tokens, cs => match cs with
    | x :: rest => chars.contains x && follows tokens rest
    | [] => false
  | .one :: tokens, cs => match cs with
    | x :: rest => x != '/' && follows tokens rest
    | [] => false
  | .many :: tokens, cs => afterSome (· != '/') (follows tokens) cs
  | .directories :: tokens, cs =>
    follows tokens cs || match cs with
      | x :: rest => inLine x && afterSome inLine
          (fun | '/' :: tail => follows tokens tail | _ => false) rest
      | [] => false
  | .between :: tokens, cs =>
    follows tokens cs || match cs with
      | '/' :: x :: rest => inLine x && afterSome inLine (follows tokens) rest
      | _ => false
  | .finish :: _, cs => match cs with
    | [] | ['\n'] | '/' :: _ => true
    | _ => false

def «matches» (p : Pattern) (path : List Char) : Bool :=
  match p.shape with
  | .nothing => false
  | .everything => path.any inLine
  | .nested => path.contains '/'
  | .steps tokens => follows tokens path

/-- The ranges that the inside of a bracket lists. A hyphen between two characters makes a
range. -/
def rangesOf : List Char → List (Char × Char)
  | [] => []
  | low :: '-' :: high :: rest => (low, high) :: rangesOf rest
  | c :: rest => (c, c) :: rangesOf rest

/-- The inside of a bracket and the text after it. A closing bracket at the very start belongs to
the inside. -/
def bracket? (cs : List Char) : Option (List Char × List Char) :=
  let first := if cs.head? = some ']' then 1 else 0
  let rest := cs.drop first
  match rest.dropWhile (· ≠ ']') with
  | _ :: tail => some (cs.take first ++ rest.takeWhile (· ≠ ']'), tail)
  | [] => none

theorem bracket?_shorter {cs inside tail : List Char} (found : bracket? cs = some (inside, tail)) :
    tail.length < cs.length := by
  simp only [bracket?] at found
  split at found
  · rename_i dropped
    cases found
    have := (List.dropWhile_sublist (· ≠ ']')
      (l := cs.drop (if cs.head? = some ']' then 1 else 0))).length_le
    rw [dropped] at this
    simp only [List.length_cons, List.length_drop] at this
    omega
  · cases found

/-- Whether the text starts with the mark of a negated set, and the text after the mark. -/
def negation : List Char → Bool × List Char
  | '!' :: rest => (true, rest)
  | '^' :: rest => (true, rest)
  | rest => (false, rest)

theorem negation_shorter (cs : List Char) : (negation cs).2.length ≤ cs.length := by
  unfold negation
  split <;> simp

/-- Why a segment makes no steps. -/
inductive Refusal where
  /-- A bracket is never closed. -/
  | unclosed
  /-- A backslash stands at the end. -/
  | dangling
  deriving DecidableEq

def globTokens (cs : List Char) : Except Refusal (List Token) :=
  match cs with
  | [] => .ok []
  | ['\x5c'] => .error .dangling
  | '\x5c' :: c :: rest => do return .char c :: (← globTokens rest)
  | '*' :: rest => do return .many :: (← globTokens rest)
  | '?' :: rest => do return .one :: (← globTokens rest)
  | '[' :: rest =>
    match found : bracket? (negation rest).2 with
    | none => .error .unclosed
    | some (inside, tail) =>
      have := bracket?_shorter found
      have := negation_shorter rest
      do return .set ⟨(negation rest).1, rangesOf inside⟩ :: (← globTokens tail)
  | c :: rest => do return .char c :: (← globTokens rest)
termination_by cs.length

/-- The steps of one segment; a lone star asks for a name that is not empty. -/
def segmentTokens (segment : List Char) : Except Refusal (List Token) :=
  if segment = ['*'] then .ok [.one, .many] else globTokens segment

/-- The steps of the segments after the first, where `slash` tells whether a slash comes before
the next name. -/
def tailTokens (slash : Bool) : List (List Char) → Except Refusal (List Token)
  | [] => .ok []
  | [segment] =>
    if segment = ['*', '*'] then .ok [.char '/']
    else do
      let tokens ← segmentTokens segment
      return (if slash then [.char '/'] else []) ++ tokens ++ [.finish]
  | segment :: rest =>
    if segment = ['*', '*'] then do return .between :: (← tailTokens true rest)
    else do
      let tokens ← segmentTokens segment
      return (if slash then [.char '/'] else []) ++ tokens ++ (← tailTokens true rest)

/-- The steps of all segments. Two stars at the start stand for any leading directories. -/
def allTokens : List (List Char) → Except Refusal (List Token)
  | ['*', '*'] :: rest => do return .directories :: (← tailTokens false rest)
  | segments => tailTokens false segments

/-- Segments in which no two neighbours are both two stars. -/
def collapse : List (List Char) → List (List Char)
  | first :: second :: rest =>
    if first = ['*', '*'] && second = ['*', '*'] then collapse (second :: rest)
    else first :: collapse (second :: rest)
  | segments => segments

/-- The segments of a pattern from the start of the path on, with two stars where any directories
may come first or any names may follow. -/
def anchored (segments : List (List Char)) : List (List Char) :=
  let segments := match segments with
    | [] :: rest => rest
    | [segment] => if segment = ['*', '*'] then [segment] else [['*', '*'], segment]
    | [segment, []] => if segment = ['*', '*'] then [segment, []] else [['*', '*'], segment, []]
    | segments => segments
  let segments := match segments.getLast? with
    | some [] => segments.dropLast ++ [['*', '*']]
    | _ => segments
  collapse segments

/-- Whether every range of a step ends no earlier than it starts. -/
def isOrdered : Token → Bool
  | .set chars => chars.ranges.all fun (low, high) => low ≤ high
  | _ => true

def shapeOf (written : String) (body : List Char) : Read Shape :=
  let pieces := Text.pieces '/' body
  let nested := pieces.getLast? == some []
  match anchored pieces with
  | [] => .error (.badPattern written)
  | [['*', '*']] => .ok (if nested then .nested else .everything)
  | [['*', '*'], ['*']] => .ok .everything
  | [['*', '*'], ['*'], ['*', '*']] => .ok .nested
  | segments => match allTokens segments with
    | .error .unclosed => .ok .nothing
    | .error .dangling => .error (.badPattern written)
    | .ok tokens => if tokens.all isOrdered then .ok (.steps tokens) else .error .badRange

/-- The pattern that a text writes. White space at the end does not count, unless a backslash
before it keeps the last blank. -/
def ofString (written : String) : Read Pattern :=
  let cs := written.toList
  let body := if cs.reverse.take 2 = [' ', '\x5c'] then cs else Text.stripEnd cs
  match body with
  | [] | '#' :: _ | ['/'] => .ok ⟨false, .nothing⟩
  | '!' :: rest => do return ⟨true, ← shapeOf written rest⟩
  | body => do return ⟨false, ← shapeOf written body⟩

end Pattern

end Path

end TreeLint
