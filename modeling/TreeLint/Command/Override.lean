import TreeLint.Fault
import TreeLint.Json.Reader
import TreeLint.Text.Blank

/-! Settings of single rules on the command line, each written as a name, an equals sign and a
severity or a JSON list. -/

namespace TreeLint

/-- Why settings on the command line cannot be used. -/
inductive OverrideError where
  /-- There is no equals sign, or nothing on one side of it. -/
  | incomplete (item : String)
  /-- The value of a name starts as a list and is no JSON. -/
  | notJson (name : String) (error : Json.Error)
  /-- Lists are nested too deeply. -/
  | tooDeep
  /-- A number cannot be read. -/
  | fault (fault : Fault)
  deriving DecidableEq

namespace OverrideError

def isUsage : OverrideError → Bool
  | incomplete _ | notJson _ _ => true
  | tooDeep | fault _ => false

def message? (half? : Char → Option Nat) : OverrideError → Option String
  | incomplete item => some ("expected NAME=SEVERITY, got " ++ Text.quoted half? item)
  | notJson name error => some ("invalid JSON setting for " ++ name ++ ": " ++ error.message)
  | tooDeep => none
  | fault f => f.message? half?

end OverrideError

namespace Override

variable [Host]

/-- The value that a text writes for a name: a JSON list, a number, or the text itself. -/
def valueOf (name text : String) : Except OverrideError Value :=
  if text.toList.head? = some '[' then match Json.parse Host.overrideLevels text.toList with
    | .ok v => .ok v
    | .error .tooDeep => .error .tooDeep
    | .error (.longInteger digits) => .error (.fault (.longInteger digits))
    | .error error => .error (.notJson name error)
  else if text.toList.all Text.isDigit then match Text.readInteger text with
    | .value n => .ok (.int n)
    | .malformed => .error (.fault (.noInteger text))
    | .tooLong digits => .error (.fault (.longInteger digits))
  else .ok (.str text)

def read (item : String) : Except OverrideError (String × Value) := do
  let cs := item.toList
  let name := String.ofList (cs.takeWhile (· ≠ '='))
  match cs.dropWhile (· ≠ '=') with
  | [] => .error (.incomplete item)
  | _ :: after =>
    let text := Text.trimmed (String.ofList after)
    if Text.isBlankString name || text.isEmpty then .error (.incomplete item)
    return (Text.trimmed name, ← valueOf name text)

def readOnto (table : List (String × Value)) : List String →
    Except OverrideError (List (String × Value))
  | [] => .ok table
  | item :: rest => do
    let (name, v) ← read item
    readOnto (Table.put table name v) rest

def readAll (items : List String) : Except OverrideError (List (String × Value)) :=
  readOnto [] items

end Override

end TreeLint
