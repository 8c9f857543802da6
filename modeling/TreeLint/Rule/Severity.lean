import TreeLint.Host
import TreeLint.Text.Blank
import TreeLint.Text.Case
import TreeLint.Value.Written

/-! How much a violation weighs. A configuration names a severity or gives its level. -/

namespace TreeLint

inductive Severity where
  | off
  | warn
  | error
  deriving DecidableEq, Inhabited

namespace Severity

def name : Severity → String
  | off => "off"
  | warn => "warn"
  | error => "error"

inductive Invalid where
  /-- A text that names none, in lower case and without white space around it. -/
  | unknownName (text : String)
  /-- Any other value, in its written form. -/
  | unknownValue (written : String)
  /-- Any other value, which cannot be shown. -/
  | unshowable (fault : Fault)
  deriving DecidableEq

def Invalid.message? (half? : Char → Option Nat) : Invalid → Option String
  | unknownName text => some (Text.quoted half? text ++ " is not a valid Severity")
  | unknownValue written => some ("invalid severity " ++ written)
  | unshowable fault => fault.message? half?

/-- The error for a value that is neither a name nor a level. -/
def Invalid.ofValue [Host] (v : Value) : Invalid :=
  match v.shown Host.severityLevels with
  | .ok written => .unknownValue written
  | .error fault => .unshowable fault

def ofName? (text : String) : Option Severity :=
  if text = "off" then some off
  else if text = "warn" || text = "warning" then some warn
  else if text = "error" then some error
  else none

def ofLevel? (n : Int) : Option Severity :=
  if n = 0 then some off else if n = 1 then some warn else if n = 2 then some error else none

/-- The severity that a value names: a name in any case, or a level from 0 to 2. -/
def ofValue [Host] (v : Value) : Except Invalid Severity :=
  match v with
  | .str s =>
    let text := Text.lower (Text.trimmed s)
    match ofName? text with
    | some severity => .ok severity
    | none => .error (.unknownName text)
  | .int n => match ofLevel? n with
    | some severity => .ok severity
    | none => .error (.ofValue v)
  | _ => .error (.ofValue v)

end Severity

end TreeLint
