import StepGrammar.Command.Line

/-!
Contract: a whole run of the program.

Arguments are checked before the environment, and the environment before the command runs.
-/

namespace StepGrammar

inductive Outcome where
  | printed (text : Text)
  | refused (cause : UsageError)
  | failed (message : Text)
deriving DecidableEq, Repr

def Outcome.exitCode : Outcome → Nat
  | .printed _ => 0
  | .failed _ => 1
  | .refused _ => 2

def versionText : Text := "stepkit 0.1.0\n".toList

def helpText : Text :=
  ("Usage: stepkit [--log-level LEVEL] [--pretty] SUBCOMMAND\n\n" ++
    "args PATTERN\nregex PATTERN\nmatch PATTERN TEXT\n" ++
    "best TEXT [--keyword KEYWORD] [--definitions FILE] [--all]\n" ++
    "resolve PATTERN [--value VALUE]...\nsegments PATTERN [--existing FILE]\n" ++
    "format PATTERN\n").toList

/-- What is left to do once arguments and environment are checked. -/
inductive Plan where
  | done (outcome : Outcome)
  | execute (config : Config) (command : Command)
deriving DecidableEq, Repr

def Plan.of (environment : Text → Option Text) (arguments : List Text) : Plan :=
  match Invocation.parse arguments with
  | .error cause => .done (.refused cause)
  | .ok .version => .done (.printed versionText)
  | .ok .help => .done (.printed helpText)
  | .ok (.content invocation) =>
    match Config.ofEnvironment environment with
    | .error cause => .done (.failed cause.message)
    | .ok config =>
      .execute (config.override invocation.logLevel (if invocation.pretty then some true else none))
        invocation.command

def Plan.outcome (files : Files) : Plan → Outcome
  | .done outcome => outcome
  | .execute config command =>
    match command.output files config.pretty with
    | .error cause => .failed cause.message
    | .ok text => .printed text

def runProgram (environment : Text → Option Text) (files : Files) (arguments : List Text) :
    Outcome :=
  (Plan.of environment arguments).outcome files

end StepGrammar
