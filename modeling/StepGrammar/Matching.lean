import StepGrammar.Definition
import StepGrammar.Pattern.Source
import StepGrammar.Regex.Match

/-!
Contract: matching a step text against one definition.

The whole text has to match. The captures go to the arguments in order; a table takes none and an
argument beyond the last capture is empty. A string loses one layer of quotes. A pattern that does
not compile matches nothing.
-/

namespace StepGrammar

/-- The text between two quotes of the given kind, if it starts and ends with them. -/
def stripQuote? (quote : Char) : Text → Option Text
  | [] => none
  | character :: rest =>
    if character == quote && rest.getLast? == some quote then some rest.dropLast else none

/-- The text without one layer of double or single quotes around it. -/
def unquote (text : Text) : Text :=
  (stripQuote? '"' text <|> stripQuote? '\x27' text).getD text

def ArgType.readCapture (type : ArgType) (text : Text) : Text :=
  if type = .parameter .string then unquote text else text

def bindCaptures : List ArgumentDefinition → List Text → List ConcreteArg
  | [], _ => []
  | definition :: rest, captures =>
    if definition.type.isCaptured then
      ⟨definition, definition.type.readCapture (captures.headD [])⟩ ::
        bindCaptures rest captures.tail
    else ⟨definition, []⟩ :: bindCaptures rest captures

def matchStep? (text : Text) (definition : StepDefinition) : Option MatchResult :=
  match definition.pattern.compile with
  | .error _ => none
  | .ok expression =>
    (expression.captures? text).map fun captures =>
      { pattern := definition.pattern
        args := bindCaptures definition.args (captures.map fun capture => capture.getD [])
        definitionId := some definition.id }

end StepGrammar
