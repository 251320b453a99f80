import Cypher.Connection.Basic
import Cypher.Settings.Basic

/-!
# The command line

A dry run: the settings are resolved from the environment, the address of the server is printed, and
a sample query is run on a scripted connection and printed as it arrived there. Nothing else of the
environment is shown.
-/

namespace Cypher.CommandLine

def version : String := "1.1.0"

/-- What the command leaves: its exit code, what it printed, and its last error message, if any. -/
structure Outcome where
  exitCode : UInt32
  stdout : String
  failure : Option String
deriving DecidableEq, Repr

/-- The outcome of a failure before anything is printed or after some lines. -/
def Outcome.failed (stdout message : String) : Outcome := ⟨1, stdout, some (message ++ "\n")⟩

/-- The steps of the sample query after its opening. -/
def sampleSteps : List Step :=
  [.node (NodePattern.empty.bind "a" |>.withLabel "Person"),
    .edgeTo (EdgePattern.empty.bind "r" |>.withType "KNOWS"),
    .node (NodePattern.empty.bind "b" |>.withLabel "Person"),
    .condition .whereItem "a.name" "=" (.string "Ada"),
    .returnItems [⟨"b.name", "friend"⟩],
    .limit "10"]

def sampleQuery : Except BuildError Query :=
  (Query.ofOpening (.matchPattern false)).applyAll sampleSteps

/-- The lines that are printed before the sample query. -/
def header (settings : Settings) : String :=
  "gqlalchemy_core version=" ++ version ++ "\n" ++ "target=" ++ settings.uri ++ "\n"

/-- The lines that show executed queries. -/
def queryLines (executed : List String) : String :=
  String.join (executed.map fun query => "query=" ++ Text.trimmed query ++ "\n")

def run (lookup : String → Option String) : Outcome :=
  match Settings.resolve lookup with
  | .error error => .failed "" ("invalid connection settings: " ++ error.message)
  | .ok settings =>
    match sampleQuery with
    | .error error => .failed (header settings) ("failed to build sample query: " ++ error.message)
    | .ok query =>
      let reply := query.execute Script.connection Script.empty
      match reply.answer with
      | .error error => .failed (header settings) ("dry run failed: " ++ error.message)
      | .ok _ => ⟨0, header settings ++ queryLines reply.state.executed, none⟩

end Cypher.CommandLine
