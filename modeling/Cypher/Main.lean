import Cypher.CommandLine

/-!
# The program

Reads the environment, runs the command and prints its outcome.
-/

namespace Cypher.CommandLine

/-- The variables that the command may look up. -/
def environmentNames : List String :=
  ["MG_HOST", "MG_PORT", "MG_USERNAME", "MG_PASSWORD", "MG_ENCRYPTED", "MG_CLIENT_NAME", "MG_LAZY"]

def environment : IO (List (String × String)) :=
  environmentNames.filterMapM fun name => do
    return (← IO.getEnv name).map fun value => (name, value)

/-- Prints an outcome and gives its exit code. -/
def report (outcome : Outcome) : IO UInt32 := do
  IO.print outcome.stdout
  if let some message := outcome.failure then
    IO.eprint message
  return outcome.exitCode

end Cypher.CommandLine

def main : IO UInt32 := do
  let known ← Cypher.CommandLine.environment
  Cypher.CommandLine.report (Cypher.CommandLine.run fun name => known.lookup name)
