import StepGrammar.Definition
import StepGrammar.Pattern.Inline

/-!
Contract: a definition made up from a step text.

Quoted text, outline references and numbers become parameters; the characters between them are
kept. Characters with a meaning in patterns are escaped, brackets and slashes everywhere and the
others only where they would have it: a caret that opens the text, a dollar sign that ends it, and
a colon with only blanks after it.
-/

namespace StepGrammar

/-- A value found in a step text, with the type of the parameter that replaces it. -/
structure LooseValue where
  type : ParameterType
  value : Text
deriving DecidableEq, Repr

def quotedValue? : Text → Option (Found LooseValue)
  | [] => none
  | character :: rest =>
    if character == '"' then
      let content := rest.takeWhile fun inner => inner != '"'
      if content.length < rest.length then some ⟨⟨.string, content⟩, content.length + 2⟩ else none
    else none

def outlineValue? (text : Text) : Option (Found LooseValue) :=
  (outlineName? text).map fun name => ⟨⟨.string, outlineReference name⟩, name.length + 2⟩

/-- The decimal places at the start of a text: a point and digits, not followed by a word
character. -/
def decimalPlaces? : Text → Option Text
  | [] => none
  | character :: rest =>
    let digits := rest.takeWhile isDigit
    if character == '.' && !digits.isEmpty && !startsWord (rest.dropWhile isDigit) then
      some (character :: digits)
    else none

/-- The number at the start of a text that does not begin or end inside a word. -/
def numberValue? (previous : Option Char) (text : Text) : Option (Found LooseValue) :=
  if previous.any isWord then none
  else
    let digits := text.takeWhile isDigit
    let remaining := text.dropWhile isDigit
    if digits.isEmpty then none
    else
      match decimalPlaces? remaining with
      | some places => some ⟨⟨.float, digits ++ places⟩, digits.length + places.length⟩
      | none => if startsWord remaining then none else some ⟨⟨.int, digits⟩, digits.length⟩

def looseValue? : Recogniser LooseValue := fun previous text =>
  quotedValue? text <|> outlineValue? text <|> numberValue? previous text

/-- The characters that are escaped wherever they stand. -/
def isPatternBracket (character : Char) : Bool := ['{', '}', '(', ')', '/'].contains character

/-- Whether the first character of a literal needs an escape because of its place. The literal may
stand at the start or at the end of the pattern. -/
def needsBoundaryEscape (opens ends : Bool) (character : Char) (rest : Text) : Bool :=
  (character == '^' && opens) || (character == '$' && ends && rest.isEmpty) ||
    (character == ':' && ends && rest.all isBlank)

def escapeLiteral (opens ends : Bool) : Text → Text
  | [] => []
  | character :: rest =>
    if needsBoundaryEscape opens ends character rest || isPatternBracket character then
      '\\' :: character :: escapeLiteral false ends rest
    else character :: escapeLiteral false ends rest

/-- The pattern of the spans of a step text, which may stand at its start. -/
def patternOfSpans (opens : Bool) : List (Span LooseValue) → Pattern
  | [] => []
  | .plain literal :: rest => escapeLiteral opens rest.isEmpty literal ++ patternOfSpans false rest
  | .construct found :: rest => '{' :: found.type.name ++ '}' :: patternOfSpans false rest

def looseValues (spans : List (Span LooseValue)) : List LooseValue :=
  spans.filterMap fun
    | .plain _ => none
    | .construct found => some found

def LooseValue.argument (index : Nat) (found : LooseValue) : ConcreteArg :=
  ⟨{ name := positionalName index, type := .parameter found.type }, found.value⟩

/-- The definition made up from a text, with the values that the text gives to it. -/
def fallbackMatch (text : Text) : MatchResult :=
  let spans := scan looseValue? text
  { pattern := patternOfSpans true spans
    args := (looseValues spans).mapIdx LooseValue.argument }

end StepGrammar
