import StepGrammar.Ranking

/-!
Contract: the log of matching.

Matching reports a definition whose pattern does not compile, ranking reports the outcome for
every candidate, and choosing reports that it made a definition up. The records of an operation
are a function of its inputs, in the order in which the operation comes upon them.
-/

namespace StepGrammar

/-- The importance of a log record, the least important first. -/
inductive LogLevel where
  | trace
  | debug
  | info
  | warn
  | error
deriving DecidableEq, Repr

def LogLevel.name : LogLevel → Text
  | .trace => "trace".toList
  | .debug => "debug".toList
  | .info => "info".toList
  | .warn => "warn".toList
  | .error => "error".toList

structure LogRecord where
  level : LogLevel
  message : Text
deriving DecidableEq, Repr

def matchLog (definition : StepDefinition) : List LogRecord :=
  match definition.pattern.compile with
  | .ok _ => []
  | .error cause =>
    [⟨.debug, "skipping step definition '".toList ++ definition.id ++ "' with pattern '".toList ++
      definition.pattern ++ "': ".toList ++ cause.message⟩]

def candidateRecord (text : Text) (definition : StepDefinition) : LogRecord :=
  let outcome := if (matchStep? text definition).isSome then "matches" else "does not match"
  ⟨.trace, "candidate '".toList ++ definition.pattern ++ "' (".toList ++ definition.id ++
    ") ".toList ++ outcome.toList ++ " '".toList ++ text ++ "'".toList⟩

def rankLog (text : Text) (keyword : StepKeyword) (definitions : List StepDefinition) :
    List LogRecord :=
  (candidates keyword definitions).flatMap fun definition =>
    matchLog definition ++ [candidateRecord text definition]

def bestLog (text : Text) (keyword : StepKeyword) (definitions : List StepDefinition) :
    List LogRecord :=
  rankLog text keyword definitions ++
    if (rankMatches text keyword definitions).isEmpty then
      [⟨.debug, "no ".toList ++ keyword.name ++ " definition among ".toList ++
        Text.ofNat definitions.length ++ " candidates matches '".toList ++ text ++
        "'; synthesising one".toList⟩]
    else []

end StepGrammar
