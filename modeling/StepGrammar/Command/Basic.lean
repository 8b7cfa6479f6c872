import StepGrammar.Json.Reader
import StepGrammar.Json.Writer
import StepGrammar.Resolve
import StepGrammar.Wire.Definition
import StepGrammar.Wire.Pattern

/-!
Contract: the commands of the program and what each one prints.

A command prints one JSON value and a line break. Two commands may read a file: definitions to
choose from, and the caller's definitions for segments. Definitions that list no arguments get
those of their patterns.
-/

namespace StepGrammar

inductive Command where
  | arguments (pattern : Pattern)
  | regex (pattern : Pattern)
  | matchText (pattern : Pattern) (text : Text)
  | best (text : Text) (keyword : StepKeyword) (definitions : Option Text) (all : Bool)
  | resolve (pattern : Pattern) (values : List Text)
  | segments (pattern : Pattern) (existing : Option Text)
  | format (pattern : Pattern)
deriving DecidableEq, Repr

inductive RunError where
  | unreadableFile (path : Text)
  | invalidJson (path : Text)
deriving DecidableEq, Repr

def RunError.message : RunError → Text
  | .unreadableFile path => "failed to read ".toList ++ path
  | .invalidJson path => "invalid JSON in ".toList ++ path

abbrev Files := Text → Option Text

/-- The list in a JSON file, each item read, or the empty list where no file is named. -/
def Files.list {α : Type} (files : Files) (read : Json → Option α) :
    Option Text → Except RunError (List α)
  | none => .ok []
  | some path =>
    match files path with
    | none => .error (.unreadableFile path)
    | some contents =>
      match (Json.read? contents).bind (Json.items? read) with
      | none => .error (.invalidJson path)
      | some values => .ok values

/-- A definition that lists no arguments gets those of its pattern. -/
def StepDefinition.withDefaultArguments (definition : StepDefinition) : StepDefinition :=
  if definition.args.isEmpty then definition.withPatternArguments else definition

def Json.orNull {α : Type} (write : α → Json) : Option α → Json
  | some value => write value
  | none => .null

namespace Command

def path? : Command → Option Text
  | .best _ _ definitions _ => definitions
  | .segments _ existing => existing
  | _ => none

def result (files : Files) : Command → Except RunError Json
  | .arguments pattern => .ok (.array (pattern.arguments.map ArgumentDefinition.toJson))
  | .regex pattern => .ok (.object [("regex".toList, .string pattern.source)])
  | .matchText pattern text =>
    let definition := StepDefinition.ofPattern "pattern".toList pattern .givenStep
    .ok (Json.orNull MatchResult.toJson (matchStep? text definition))
  | .best text keyword path all =>
    match files.list StepDefinition.ofJson? path with
    | .error cause => .error cause
    | .ok listed =>
      let definitions := listed.map StepDefinition.withDefaultArguments
      if all then .ok (.array ((rankMatches text keyword definitions).map RankedMatch.toJson))
      else .ok (bestMatch text keyword definitions).toJson
  | .resolve pattern values =>
    .ok (.object [("text".toList, .string (pattern.resolve (pattern.argumentsWith values)))])
  | .segments pattern path =>
    match files.list ArgumentDefinition.ofJson? path with
    | .error cause => .error cause
    | .ok caller => .ok (.array ((pattern.segments caller).map PatternSegment.toJson))
  | .format pattern => .ok pattern.display.toJson

def output (files : Files) (pretty : Bool) (command : Command) : Except RunError Text :=
  match command.result files with
  | .error cause => .error cause
  | .ok value => .ok ((if pretty then value.indented else value.compact) ++ ['\n'])

end Command

end StepGrammar
