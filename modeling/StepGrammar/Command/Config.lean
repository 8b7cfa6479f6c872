import StepGrammar.Log

/-!
Contract: the settings of the command line program.

Settings come from environment variables and are overridden by options. A variable that is set to
a text without meaning is an error even when an option would override it.
-/

namespace StepGrammar

inductive ConfigError where
  | unknownLogLevel (text : Text)
  | invalidFlag (setting text : Text)
deriving DecidableEq, Repr

def ConfigError.message : ConfigError → Text
  | .unknownLogLevel text =>
    "invalid configuration: unknown log level '".toList ++ text ++
      "', expected one of: trace, debug, info, warn, error".toList
  | .invalidFlag setting text =>
    "invalid configuration: invalid ".toList ++ setting ++ " value '".toList ++ text ++
      "', expected true or false".toList

def LogLevel.spellings : List (Text × LogLevel) :=
  [("trace".toList, .trace), ("debug".toList, .debug), ("info".toList, .info),
    ("warn".toList, .warn), ("warning".toList, .warn), ("error".toList, .error)]

/-- The log level that a text names, ASCII case aside. -/
def LogLevel.parse (text : Text) : Except ConfigError LogLevel :=
  match LogLevel.spellings.lookup (Text.asciiLower text) with
  | some level => .ok level
  | none => .error (.unknownLogLevel text)

def flagSpellings : List (Text × Bool) :=
  [("1".toList, true), ("true".toList, true), ("yes".toList, true), ("on".toList, true),
    ("0".toList, false), ("false".toList, false), ("no".toList, false), ("off".toList, false),
    ([], false)]

/-- The state of a flag that a text names, blanks around it and ASCII case aside. -/
def parseFlag (setting text : Text) : Except ConfigError Bool :=
  match flagSpellings.lookup (Text.asciiLower (Text.trim text)) with
  | some state => .ok state
  | none => .error (.invalidFlag setting text)

structure Config where
  logLevel : LogLevel := .warn
  pretty : Bool := false
deriving DecidableEq, Repr

namespace Config

def logLevelVariable : Text := "STEPKIT_LOG_LEVEL".toList

def prettyVariable : Text := "STEPKIT_PRETTY".toList

/-- The settings of an environment. The log level is looked at first. -/
def ofEnvironment (environment : Text → Option Text) : Except ConfigError Config := do
  let logLevel ←
    match environment logLevelVariable with
    | some text => LogLevel.parse text
    | none => .ok LogLevel.warn
  let pretty ←
    match environment prettyVariable with
    | some text => parseFlag prettyVariable text
    | none => .ok false
  return ⟨logLevel, pretty⟩

def override (config : Config) (logLevel : Option LogLevel) (pretty : Option Bool) : Config :=
  ⟨logLevel.getD config.logLevel, pretty.getD config.pretty⟩

end Config

end StepGrammar
