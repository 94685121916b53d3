import FlowControl.Program

/-!
# The command

Reads the arguments and the environment, runs the program, and writes what it says.
-/

namespace FlowControl

/-- The variables of all options, as far as they are set. -/
def Environment.ofProcess : IO Environment := do
  let names := Choice.all.map (·.environmentName) ++ Switch.all.filterMap (·.environmentName?)
  let entries ← names.filterMapM fun name => do
    return (← IO.getEnv name).map fun text => (name, text)
  return (Dictionary.ofList entries).get?

end FlowControl

open FlowControl in
/-- Runs the program. -/
def main (arguments : List String) : IO UInt32 := do
  let outcome := Program.run arguments (← Environment.ofProcess)
  (← IO.getStdout).putStr outcome.output
  (← IO.getStderr).putStr outcome.errors
  return outcome.code.toUInt32
