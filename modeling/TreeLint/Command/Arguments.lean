import TreeLint.Registry

/-! The arguments of the command line. Options and other arguments may be mixed, two hyphens end
the options, and single letters may share a hyphen. -/

namespace TreeLint.Command

/-- An option: its name, the letter that stands for it, and whether a value follows it. -/
structure Switch where
  name : String
  letter : Option Char
  takesValue : Bool

/-- Arguments told apart: the options that were given, by name with their values, and the rest. -/
structure Sorted where
  given : List (String × String)
  rest : List String

namespace Sorted

def withArgument (argument : String) (sorted : Sorted) : Sorted :=
  { sorted with rest := argument :: sorted.rest }

def has (sorted : Sorted) (name : String) : Bool := sorted.given.any (·.1 == name)

def values (sorted : Sorted) (name : String) : List String :=
  sorted.given.filterMap fun (given, value) => if given == name then some value else none

end Sorted

/-- What an argument asks for: options that are complete, and the name of one that still needs a
value. -/
structure Request where
  given : List (String × String)
  pending : Option String

/-- The option that a long name asks for, which may carry a value after an equals sign. -/
def longRequest (switches : List Switch) (cs : List Char) : Option Request := do
  let name := String.ofList (cs.takeWhile (· ≠ '='))
  let switch ← switches.find? (·.name == name)
  match cs.dropWhile (· ≠ '=') with
  | [] => if switch.takesValue then some ⟨[], some name⟩ else some ⟨[(name, "")], none⟩
  | _ :: value => if switch.takesValue then some ⟨[(name, String.ofList value)], none⟩ else none

/-- The options that letters after one hyphen ask for. What follows a letter that takes a value is
the value. -/
def lettersRequest (switches : List Switch) : List Char → Option Request
  | [] => some ⟨[], none⟩
  | c :: cs => do
    let switch ← switches.find? (·.letter == some c)
    if switch.takesValue then
      if cs.isEmpty then some ⟨[], some switch.name⟩
      else some ⟨[(switch.name, String.ofList cs)], none⟩
    else
      let request ← lettersRequest switches cs
      some { request with given := (switch.name, "") :: request.given }

/-- What an argument asks for; none for an option that there is not. -/
def request? (switches : List Switch) : List Char → Option Request
  | '-' :: '-' :: name => longRequest switches name
  | _ :: letters => lettersRequest switches letters
  | [] => none

def isOption (argument : String) : Bool :=
  match argument.toList with
  | '-' :: _ :: _ => true
  | _ => false

/-- Tell the options from the other arguments. When they are not `mixed`, the first argument that
is no option ends the options. There is no outcome for an unknown option and for one that lacks its
value or has one too many. -/
def sort (switches : List Switch) (mixed : Bool) : List String → Option Sorted
  | [] => some ⟨[], []⟩
  | argument :: rest =>
    if argument = "--" then some ⟨[], rest⟩
    else if isOption argument then
      match request? switches argument.toList with
      | none => none
      | some ⟨given, none⟩ =>
        (sort switches mixed rest).map fun s => { s with given := given ++ s.given }
      | some ⟨given, some name⟩ => match rest with
        | [] => none
        | value :: rest => (sort switches mixed rest).map fun s =>
          { s with given := given ++ (name, value) :: s.given }
    else if mixed then (sort switches mixed rest).map (Sorted.withArgument argument)
    else some ⟨[], argument :: rest⟩

structure CheckArguments where
  paths : List String
  format : String
  fix : Bool
  overrides : List String

inductive Task where
  | help
  | check (arguments : CheckArguments)
  | rules
  | config (preset : String)

def helpSwitch : Switch := ⟨"help", none, false⟩

def programSwitches : List Switch := [⟨"verbose", some 'v', false⟩, helpSwitch]

def checkSwitches : List Switch :=
  [⟨"format", some 'f', true⟩, ⟨"fix", none, false⟩, ⟨"rule", some 'r', true⟩, helpSwitch]

def defaultFormat : String := "terminal"

/-- The task of a check with its arguments. There must be a path, and no argument that can be
none. -/
def checkTask (sorted : Sorted) : Option Task :=
  if sorted.rest.isEmpty || sorted.rest.any (·.toList.contains '\x00') then none
  else some (.check {
    paths := sorted.rest
    format := (sorted.values "format").getLastD defaultFormat
    fix := sorted.has "fix"
    overrides := sorted.values "rule" })

def configTask (sorted : Sorted) : Option Task :=
  match sorted.rest with
  | [] => some (.config Registry.presetName)
  | [preset] => some (.config preset)
  | _ => none

def rulesTask (sorted : Sorted) : Option Task :=
  if sorted.rest.isEmpty then some .rules else none

def subtask (switches : List Switch) (task : Sorted → Option Task) (arguments : List String) :
    Option Task := do
  let sorted ← sort switches true arguments
  if sorted.has helpSwitch.name then some .help else task sorted

/-- The task that arguments ask for; none if they are used wrongly. -/
def Task.ofArguments (arguments : List String) : Option Task := do
  let sorted ← sort programSwitches false arguments
  if sorted.has helpSwitch.name then some .help
  else match sorted.rest with
    | "check" :: rest => subtask checkSwitches checkTask rest
    | "rules" :: rest => subtask [helpSwitch] rulesTask rest
    | "config" :: rest => subtask [helpSwitch] configTask rest
    | _ => none

def usage : List String :=
  ["Usage: treelint [--verbose] TASK [ARGUMENTS]",
   "",
   "  check PATHS [--format terminal|json] [--fix] [--rule NAME=SEVERITY]",
   "      Look for violations in serialized trees, and mend sources with --fix.",
   "  rules",
   "      Show all rules.",
   "  config [PRESET]",
   "      Show the severities of a preset."]

end TreeLint.Command
