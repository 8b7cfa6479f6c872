import StepGrammar.Command.Basic
import StepGrammar.Command.Config

/-!
Contract: the grammar of the command line.

An invocation is a subcommand with its positional arguments and options. The two general options
may stand before or after the name of the subcommand. A value is given in the same argument after
an equals sign or in the next argument, which then must not begin with a dash; a dash alone is a
value. After a double dash every argument is positional.

Arguments are looked at from left to right, so an error before a request for help or for the
version wins. The value of an option in its own argument is checked when the next option or
positional argument of the same subcommand is met. A general option right before the name of a
subcommand is therefore checked after the arguments of the subcommand.
-/

namespace StepGrammar

inductive UsageError where
  | missingSubcommand
  | unknownSubcommand (name : Text)
  | unknownOption (argument : Text)
  | missingValue (option : Text)
  | unexpectedValue (option : Text)
  | repeatedOption (option : Text)
  | invalidValue (option value : Text)
  | missingArgument
  | surplusArgument (argument : Text)
deriving DecidableEq, Repr

def UsageError.message : UsageError → Text
  | .missingSubcommand => "a subcommand is required".toList
  | .unknownSubcommand name => "unknown subcommand: ".toList ++ name
  | .unknownOption argument => "unknown option: ".toList ++ argument
  | .missingValue option => "a value is required for --".toList ++ option
  | .unexpectedValue option => "no value is allowed for --".toList ++ option
  | .repeatedOption option => "given more than once: --".toList ++ option
  | .invalidValue option value => "invalid value for --".toList ++ option ++ ": ".toList ++ value
  | .missingArgument => "a required argument is missing".toList
  | .surplusArgument argument => "unexpected argument: ".toList ++ argument

structure OptionRule where
  name : Text
  takesValue : Bool := true
  repeatable : Bool := false
  accepts : Text → Bool := fun _ => true

/-- An option that was named last. Its value may still be to come, and is not checked yet. -/
structure PendingOption where
  rule : OptionRule
  value : Option Text

/-- What was read so far: the positional arguments, the options with their values, in order, and
the option whose value is not checked yet. -/
structure Reading where
  positional : List Text := []
  options : List (Text × Text) := []
  pending : Option PendingOption := none

namespace Reading

def has (reading : Reading) (name : Text) : Bool := (reading.options.lookup name).isSome

def value? (reading : Reading) (name : Text) : Option Text := reading.options.lookup name

def values (reading : Reading) (name : Text) : List Text :=
  (reading.options.filter fun option => option.1 == name).map fun option => option.2

def addOption (reading : Reading) (rule : OptionRule) (value : Text) : Except UsageError Reading :=
  if !rule.repeatable && reading.has rule.name then .error (.repeatedOption rule.name)
  else if !rule.accepts value then .error (.invalidValue rule.name value)
  else .ok { reading with options := reading.options ++ [(rule.name, value)] }

def settle (reading : Reading) : Except UsageError Reading :=
  match reading.pending with
  | none => .ok reading
  | some ⟨rule, none⟩ => .error (.missingValue rule.name)
  | some ⟨rule, some value⟩ => { reading with pending := none }.addOption rule value

def awaited? (reading : Reading) : Option OptionRule :=
  match reading.pending with
  | some ⟨rule, none⟩ => some rule
  | _ => none

/-- The reading with one more positional argument, of which there may be `limit`. -/
def addPositional (reading : Reading) (limit : Nat) (argument : Text) :
    Except UsageError Reading := do
  let settled ← reading.settle
  if settled.positional.length < limit then
    return { settled with positional := settled.positional ++ [argument] }
  else .error (.surplusArgument argument)

/-- Takes in a long option. Nothing may be pending. -/
def addLong (reading : Reading) (rules : List OptionRule) (argument name : Text)
    (attached : Option Text) : Except UsageError Reading :=
  match rules.find? fun rule => rule.name == name with
  | none => .error (.unknownOption argument)
  | some rule =>
    match attached with
    | some value =>
      if rule.takesValue then reading.addOption rule value
      else .error (.unexpectedValue rule.name)
    | none =>
      if rule.takesValue then .ok { reading with pending := some ⟨rule, none⟩ }
      else reading.addOption rule []

end Reading

inductive ArgumentShape where
  | positional
  | separator
  /-- A long option, with the value attached to it. -/
  | long (name : Text) (attached : Option Text)
  | short (letters : Text)
deriving DecidableEq, Repr

def ArgumentShape.of : Text → ArgumentShape
  | [] => .positional
  | first :: rest =>
    if first != '-' then .positional
    else
      match rest with
      | [] => .positional
      | second :: name =>
        if second != '-' then .short rest
        else if name.isEmpty then .separator
        else
          match name.dropWhile fun character => character != '=' with
          | [] => .long name none
          | _ :: value => .long (name.takeWhile fun character => character != '=') (some value)

/-- The options that may be given anywhere. -/
def generalOptions : List OptionRule :=
  [{ name := "log-level".toList, accepts := fun value => (LogLevel.parse value).toOption.isSome },
    { name := "pretty".toList, takesValue := false }]

inductive Request (α : Type) where
  | version
  | help
  | content (value : α)

/-- What a subcommand expects: how many positional arguments, and which options besides the general
ones. -/
structure SubcommandRule where
  positionals : Nat := 1
  options : List OptionRule := []

def pathOption (name : String) : OptionRule :=
  { name := name.toList, accepts := fun value => !value.isEmpty }

def subcommands : List (Text × SubcommandRule) :=
  [("args".toList, {}), ("regex".toList, {}), ("format".toList, {}),
    ("match".toList, { positionals := 2 }),
    ("best".toList,
      { options :=
          [{ name := "keyword".toList
             accepts := fun value => (StepKeyword.parse value).toOption.isSome },
            pathOption "definitions",
            { name := "all".toList, takesValue := false }] }),
    ("resolve".toList, { options := [{ name := "value".toList, repeatable := true }] }),
    ("segments".toList, { options := [pathOption "existing"] })]

def helpName : Text := "help".toList

def readSubcommand (rule : SubcommandRule) (reading : Reading) :
    List Text → Except UsageError (Request Reading)
  | [] => do return .content (← reading.settle)
  | argument :: rest =>
    match ArgumentShape.of argument, reading.awaited? with
    | .positional, some awaited =>
      readSubcommand rule { reading with pending := some ⟨awaited, some argument⟩ } rest
    | .positional, none => do
      readSubcommand rule (← reading.addPositional rule.positionals argument) rest
    | .separator, _ => do
      let settled ← reading.settle
      return .content (← rest.foldlM (fun read => read.addPositional rule.positionals) settled)
    | .short letters, _ => do
      let _ ← reading.settle
      if letters.head? = some 'h' then return .help else .error (.unknownOption argument)
    | .long name attached, _ => do
      let settled ← reading.settle
      if name = helpName && attached.isNone then return .help
      else
        readSubcommand rule
          (← settled.addLong (rule.options ++ generalOptions) argument name attached) rest

/-- The name of a subcommand with the general options before it and the arguments after it. -/
structure Selected where
  general : Reading
  name : Text
  rest : List Text

/-- Reads the arguments after `help`: the name of a subcommand, `help` itself among them, or
nothing. -/
def readHelpTopic {α : Type} : List Text → Except UsageError (Request α)
  | [] => .ok .help
  | topic :: rest =>
    if topic ≠ helpName && (subcommands.lookup topic).isNone then .error (.unknownSubcommand topic)
    else
      match rest with
      | [] => .ok .help
      | next :: _ => .error (.unknownSubcommand next)

/-- Reads the arguments up to the name of the subcommand. -/
def readGeneral (reading : Reading) : List Text → Except UsageError (Request Selected)
  | [] => do
    let _ ← reading.settle
    .error .missingSubcommand
  | argument :: rest =>
    match ArgumentShape.of argument, reading.awaited? with
    | .positional, some awaited =>
      readGeneral { reading with pending := some ⟨awaited, some argument⟩ } rest
    | .positional, none =>
      if argument = helpName then readHelpTopic rest else .ok (.content ⟨reading, argument, rest⟩)
    | .separator, _ => .error .missingSubcommand
    | .short letters, _ => do
      let _ ← reading.settle
      if letters.head? = some 'V' then return .version
      else if letters.head? = some 'h' then return .help
      else .error (.unknownOption argument)
    | .long name attached, _ => do
      let settled ← reading.settle
      if name = "version".toList && attached.isNone then return .version
      else if name = helpName && attached.isNone then return .help
      else readGeneral (← settled.addLong generalOptions argument name attached) rest

/-- The keyword given as an option, which is `Given` by default. -/
def Reading.keyword (reading : Reading) : StepKeyword :=
  match reading.value? "keyword".toList with
  | none => .givenStep
  | some text => (StepKeyword.parse text).toOption.getD .givenStep

def commandOfOne? (name : Text) (reading : Reading) (argument : Text) : Option Command :=
  if name = "args".toList then some (.arguments argument)
  else if name = "regex".toList then some (.regex argument)
  else if name = "format".toList then some (.format argument)
  else if name = "best".toList then
    some
      (.best argument reading.keyword (reading.value? "definitions".toList)
        (reading.has "all".toList))
  else if name = "resolve".toList then some (.resolve argument (reading.values "value".toList))
  else if name = "segments".toList then some (.segments argument (reading.value? "existing".toList))
  else none

def commandOf (name : Text) (reading : Reading) : Except UsageError Command :=
  match reading.positional with
  | [first, second] =>
    if name = "match".toList then .ok (.matchText first second)
    else .error (.surplusArgument second)
  | [only] =>
    match commandOfOne? name reading only with
    | some command => .ok command
    | none => .error .missingArgument
  | _ => .error .missingArgument

structure Invocation where
  logLevel : Option LogLevel
  pretty : Bool
  command : Command
deriving DecidableEq, Repr

def Reading.logLevel? (reading : Reading) : Option LogLevel :=
  (reading.value? "log-level".toList).bind fun text => (LogLevel.parse text).toOption

/-- The invocation that a subcommand, its arguments and the options before it make up. An option
after the name of the subcommand goes before the same option in front of it. -/
def Selected.invocation (selected : Selected) (reading : Reading) :
    Except UsageError Invocation := do
  let general ← selected.general.settle
  return {
    logLevel := reading.logLevel?.or general.logLevel?
    pretty := reading.has "pretty".toList || general.has "pretty".toList
    command := ← commandOf selected.name reading }

def Invocation.parse (arguments : List Text) : Except UsageError (Request Invocation) := do
  match ← readGeneral {} arguments with
  | .version => return .version
  | .help => return .help
  | .content selected =>
    match subcommands.lookup selected.name with
    | none => .error (.unknownSubcommand selected.name)
    | some rule =>
      match ← readSubcommand rule {} selected.rest with
      | .version => return .version
      | .help => return .help
      | .content reading => return .content (← selected.invocation reading)

end StepGrammar
