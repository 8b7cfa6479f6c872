import StepGrammar.Keyword
import StepGrammar.Pattern.Arguments

/-!
Contract: step definitions and the results of matching a step against them.

A definition carries its arguments beside its pattern. They usually come from the pattern, but a
caller may describe them otherwise. A result without definition was made up from the text.
-/

namespace StepGrammar

structure StepLocation where
  file : Text
  line : Nat
deriving DecidableEq, Repr

/-- A pattern registered under an identifier for steps of a keyword. -/
structure StepDefinition where
  id : Text
  pattern : Pattern
  keyword : StepKeyword
  args : List ArgumentDefinition := []
  location : Option StepLocation := none
deriving DecidableEq, Repr

namespace StepDefinition

/-- The definition whose arguments are those that its pattern declares. -/
def ofPattern (id : Text) (pattern : Pattern) (keyword : StepKeyword) : StepDefinition where
  id := id
  pattern := pattern
  keyword := keyword
  args := pattern.arguments

def withPatternArguments (definition : StepDefinition) : StepDefinition :=
  { definition with args := definition.pattern.arguments }

end StepDefinition

/-- A pattern with the values that a step text gives to its arguments. -/
structure MatchResult where
  pattern : Pattern
  args : List ConcreteArg
  definitionId : Option Text := none
deriving DecidableEq, Repr

namespace MatchResult

/-- Whether the result was made up from the text. -/
def isFallback (result : MatchResult) : Bool := result.definitionId.isNone

def values (result : MatchResult) : List Text := result.args.map fun arg => arg.value

end MatchResult

end StepGrammar
