import TreeLint.Check.Basic
import TreeLint.Command.Arguments
import TreeLint.Command.Override
import TreeLint.Project.Basic
import TreeLint.Report.Json
import TreeLint.Report.Terminal

/-! The program as a function: from the files and the arguments to an exit code, what is shown, and
the files afterwards. -/

namespace TreeLint

/-- Why the program broke off without an answer. -/
inductive CommandError where
  | failure (error : Failure)
  | config (error : ConfigError)
  | override (error : OverrideError)
  deriving DecidableEq

namespace CommandError

variable (half? : Char → Option Nat)

/-- The wording of an error that is shown to the user as the answer of a check. -/
def shown? : CommandError → Option String
  | failure (.load path problem) => (Failure.load path problem).message? half?
  | config (.unknownRule key) => (ConfigError.unknownRule key).message? half?
  | config (.invalidSetting rule error) => (ConfigError.invalidSetting rule error).message? half?
  | _ => none

def message? : CommandError → Option String
  | failure error => error.message? half?
  | config error => error.message? half?
  | override error => error.message? half?

end CommandError

/-- What the program answers: an exit code, the text on standard output, and what is shown on the
console. -/
structure Response where
  exitCode : Nat
  stdout : String
  console : List Report.Output

namespace Response

def clean : Nat := 0

def violations : Nat := 1

def usage : Nat := 2

def misuse : Response := ⟨usage, "", []⟩

def refusal (message : String) : Response :=
  ⟨usage, "", [.line ("Error: " ++ Report.inMarkup message) ["bold red"]]⟩

end Response

namespace Command

inductive Format where
  | terminal
  | json
  deriving DecidableEq

def Format.name : Format → String
  | terminal => "terminal"
  | json => "json"

def Format.all : List Format := [.terminal, .json]

def Format.ofName? (name : String) : Option Format := Format.all.find? (·.name == name)

variable [Host]

def Format.report (format : Format) (results : List LintResult) : Read Response := do
  let code := if results.any LintResult.hasErrors then Response.violations else Response.clean
  match format with
  | terminal => return ⟨code, "", ← Report.terminal results⟩
  | json => return ⟨code, Report.json results, []⟩

def configure (settings : ProjectSettings) (overrides : List (String × Value)) :
    Except ConfigError Configuration := do
  let config ← Configuration.ofValue settings.config
  if overrides.isEmpty then return config else config.withOverrides overrides

structure Completion where
  files : FileSystem
  result : Except CommandError Response

namespace Completion

def answer (fs : FileSystem) (response : Response) : Completion := ⟨fs, .ok response⟩

/-- An error, which is shown to the user if it has a wording for that. -/
def stop (fs : FileSystem) (error : CommandError) : Completion :=
  match error.shown? Host.half? with
  | some message => ⟨fs, .ok (.refusal message)⟩
  | none => ⟨fs, .error error⟩

end Completion

def check (cwd : String) (fs : FileSystem) (settings : ProjectSettings)
    (arguments : CheckArguments) : Completion :=
  match Format.ofName? arguments.format with
  | none => .answer fs .misuse
  | some format => match Override.readAll arguments.overrides with
    | .error error => if error.isUsage then .answer fs .misuse else ⟨fs, .error (.override error)⟩
    | .ok overrides => match configure settings overrides with
      | .error error => .stop fs (.config error)
      | .ok config =>
        let paths := arguments.paths.map fun path => (Path.ofString path).text
        let outcome := Check.run config paths arguments.fix (some cwd) fs
        match outcome.result with
        | .error failure => .stop outcome.files (.failure failure)
        | .ok results => match format.report results with
          | .error fault => .stop outcome.files (.failure (.fault fault))
          | .ok response => .answer outcome.files response

def ruleRow (rule : Rule) : List Report.Cell :=
  [rule.name, rule.info.type, (Registry.recommendedSeverity rule.name).name,
   if rule.info.fixable.isSome then "yes" else "", rule.info.description].map .ofText

def ruleTable : Report.Output :=
  .table (.ofText Registry.namespaceName)
    ["Rule", "Type", "Recommended", "Fixable", "Description"]
    (Registry.standard.rules.map ruleRow)

def presetText (severities : List (String × Severity)) : String :=
  let rules : Members := severities.map fun (name, severity) => (name, .str severity.name)
  Json.indented (.object [("rules", .object rules)]) ++ "\n"

def showPreset (name : String) : Response :=
  if name = Registry.presetName then
    ⟨Response.clean, presetText Registry.standard.recommended, []⟩
  else .refusal ("unknown preset " ++ Text.quoted Host.half? name)

/-- Do what arguments ask for. The settings of the project are needed first, whatever is asked. -/
def run (cwd : String) (fs : FileSystem) (arguments : List String) : Completion :=
  match ProjectSettings.load fs ⟨.here, []⟩ with
  | .error failure => ⟨fs, .error (.failure failure)⟩
  | .ok settings => match Task.ofArguments arguments with
    | none => .answer fs .misuse
    | some .help => .answer fs ⟨Response.clean, "", []⟩
    | some (.check arguments) => check cwd fs settings arguments
    | some .rules => .answer fs ⟨Response.clean, "", [ruleTable]⟩
    | some (.config preset) => .answer fs (showPreset preset)

end Command

end TreeLint
