/-
  HostTables.Program — a whole run: arguments and environment in, text out.
-/
import HostTables.CommandLine
import HostTables.Query.Execute

namespace HostTables

/-- Why a run prints nothing. -/
inductive RunError where
  | refused (refusal : Refusal)
  | query (cause : QueryError)
  deriving DecidableEq, Repr

namespace Program

/-- The configuration of a run and what was logged on the way: the environment, overridden by
the options. -/
def configure (machine : Machine) (options : Options) : Config × List Notice :=
  let (config, notices) := Config.ofEnvironment machine
  (options.apply config, notices)

/-- How the answer is laid out. -/
def layoutOf (options : Options) : Json.Layout :=
  if options.pretty then .indented 0 else .compact

/-- Runs an invocation: the printed answer, and what was logged. -/
def answer (machine : Machine) (invocation : Invocation) :
    Except QueryError Text × List Notice :=
  let (config, configNotices) := configure machine invocation.options
  let (context, contextNotices) := Context.ofConfig machine.files config
  let printed := do
    let result ← invocation.query.execute machine context invocation.options.expected
    return result.json.print (layoutOf invocation.options) ++ ['\n']
  (printed, configNotices ++ contextNotices)

/-- Runs a command line: the printed answer, and what was logged. -/
def run (machine : Machine) (args : List Text) : Except RunError Text × List Notice :=
  match Invocation.parse args with
  | .error refusal => (.error (.refused refusal), [])
  | .ok invocation =>
    let (printed, notices) := answer machine invocation
    (printed.mapError RunError.query, notices)

end Program

end HostTables
