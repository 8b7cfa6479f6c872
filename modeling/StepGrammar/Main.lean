import StepGrammar.Command.Run

/-!
Contract: the program. It reads the environment and at most one file, and prints what the library
computes.
-/

namespace StepGrammar

def readContents? (path : Text) : IO (Option Text) := do
  try
    let contents ← IO.FS.readFile (String.ofList path)
    return some contents.toList
  catch _ => return none

def readEnvironment : IO (Text → Option Text) := do
  let logLevel ← IO.getEnv (String.ofList Config.logLevelVariable)
  let pretty ← IO.getEnv (String.ofList Config.prettyVariable)
  return fun name =>
    if name = Config.logLevelVariable then logLevel.map String.toList
    else if name = Config.prettyVariable then pretty.map String.toList
    else none

def readFiles : Plan → IO Files
  | .done _ => return fun _ => none
  | .execute _ command => do
    match command.path? with
    | none => return fun _ => none
    | some path =>
      let contents ← readContents? path
      return fun name => if name = path then contents else none

def runMain (arguments : List String) : IO UInt32 := do
  let environment ← readEnvironment
  let plan := Plan.of environment (arguments.map String.toList)
  let outcome := plan.outcome (← readFiles plan)
  match outcome with
  | .printed text => IO.print (String.ofList text)
  | .refused cause => IO.eprintln (String.ofList cause.message)
  | .failed message => IO.eprintln (String.ofList message)
  return outcome.exitCode.toUInt32

end StepGrammar

def main (arguments : List String) : IO UInt32 := StepGrammar.runMain arguments
