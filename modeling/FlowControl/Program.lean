import FlowControl.Load.Trial
import FlowControl.Options.CommandLine
import FlowControl.Records

/-!
# The program

What the program does with its arguments and environment: it answers a request, refuses what
it cannot read, or tries the load. Its exit code and what it writes follow from the outcome.
-/

namespace FlowControl

/-- What the program does. -/
inductive Outcome where
  /-- It does not go to work. -/
  | interrupted (interruption : Interruption)
  /-- It fails. -/
  | failed (fault : Fault)
  /-- It tries the load, and writes the report if that is asked for. -/
  | reported (report : Report) (written : Bool)

namespace Program

/-- The name of the program. -/
def name : String := "backflow"

/-- The version of the program. -/
def version : String := "0.1.0"

/-- The answer to a request for the version. -/
def versionText : String := name ++ " " ++ version ++ "\n"

/-- The answer to a request for help. -/
def helpText : String :=
  "Usage: " ++ name ++ " [OPTIONS]\n\nOptions:\n"
    ++ String.join (Choice.all.map fun choice => "      --" ++ choice.name ++ " <VALUE>\n")
    ++ String.join (Switch.all.map fun switch => "      --" ++ switch.name ++ "\n")
    ++ "  -h, --help\n  -V, --version\n"

/-- What the program does with arguments and an environment. -/
def run (arguments : List String) (environment : Environment) : Outcome :=
  match CommandLine.parse arguments environment with
  | .error interruption => .interrupted interruption
  | .ok settings =>
    match settings.tryLoad with
    | .error fault => .failed fault
    | .ok report => .reported report settings.reportJson

end Program

namespace Interruption

/-- What is said of arguments that are refused. Requests are not refused. -/
def message : Interruption → String
  | help => Program.helpText
  | version => Program.versionText
  | unknownArgument argument => "unexpected argument '" ++ argument ++ "' found"
  | missingValue choice => "a value is required for '--" ++ choice.name ++ "' but none was supplied"
  | badValue choice text => "invalid value '" ++ text ++ "' for '--" ++ choice.name ++ "'"
  | badSwitch switch text => "invalid value '" ++ text ++ "' for '--" ++ switch.name ++ "'"
  | repeated option => "the argument '--" ++ option ++ "' cannot be used multiple times"
  | unneededValue option => "unexpected value for '--" ++ option ++ "'"

end Interruption

namespace Fault

/-- A fault as the program shows it, with the fault that lies under it. -/
def display (fault : Fault) : String :=
  "Error: " ++ fault.message ++ "\n"
    ++ match fault.source? with
      | some source => "\nCaused by:\n    " ++ source ++ "\n"
      | none => ""

end Fault

namespace Outcome

/-- The exit code. -/
def code : Outcome → UInt8
  | interrupted .help => 0
  | interrupted .version => 0
  | interrupted _ => 2
  | failed _ => 1
  | reported _ _ => 0

/-- What is written to the standard output. -/
def output : Outcome → String
  | interrupted .help => Program.helpText
  | interrupted .version => Program.versionText
  | interrupted _ => ""
  | failed _ => ""
  | reported report true => report.render ++ "\n"
  | reported _ false => ""

/-- What is written to the standard error. -/
def errors : Outcome → String
  | interrupted .help => ""
  | interrupted .version => ""
  | interrupted interruption => "error: " ++ interruption.message ++ "\n"
  | failed fault => fault.display
  | reported _ _ => ""

end Outcome

end FlowControl
