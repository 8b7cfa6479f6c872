import StepGrammar.Pattern.Escape
import StepGrammar.Pattern.Token
import StepGrammar.Text.Blank
import StepGrammar.Text.Scan
import StepGrammar.Text.Word

/-!
Contract: the constructs that may also stand inside an optional group.

These are escapes, parameters in braces, the empty braces and references to the columns of a
scenario outline.
-/

namespace StepGrammar

def escape? : Text → Option (Found Piece)
  | first :: second :: _ =>
    if first == '\\' && isEscapable second then some ⟨.escape second, 2⟩ else none
  | _ => none

/-- The name that follows the type of a parameter, up to the closing brace: none at all, or a
colon and a word. -/
def parameterName? : Text → Option (Option Text)
  | [] => none
  | character :: rest =>
    if character == '}' then some none
    else if character == ':' then
      match rest.takeWhile isWord, rest.dropWhile isWord with
      | first :: others, closing :: _ =>
        if closing == '}' then some (some (first :: others)) else none
      | _, _ => none
    else none

def parameterNameLength : Option Text → Nat
  | none => 0
  | some name => name.length + 1

def isTypeCharacter (character : Char) : Bool := !([':', '}'].contains character)

def parameter? : Text → Option (Found Piece)
  | [] => none
  | character :: rest =>
    if character == '{' then
      match ParameterType.ofName? (rest.takeWhile isTypeCharacter) with
      | none => none
      | some type =>
        (parameterName? (rest.dropWhile isTypeCharacter)).map fun name =>
          ⟨.parameter type name, type.name.length + parameterNameLength name + 2⟩
    else none

def anonymous? : Text → Option (Found Piece)
  | first :: second :: _ => if first == '{' && second == '}' then some ⟨.anonymous, 2⟩ else none
  | _ => none

def isOutlineCharacter (character : Char) : Bool := !(['<', '>'].contains character)

def outlineName? : Text → Option Text
  | opening :: first :: rest =>
    if opening == '<' && isOutlineCharacter first && !isBlank first then
      match rest.dropWhile isOutlineCharacter with
      | [] => none
      | closing :: _ =>
        if closing == '>' then some (first :: rest.takeWhile isOutlineCharacter) else none
    else none
  | _ => none

def outlineReference (name : Text) : Text := '<' :: name ++ ['>']

def outline? (text : Text) : Option (Found Piece) :=
  (outlineName? text).map fun name => ⟨.outline name, name.length + 2⟩

/-- Whether a text is an outline reference from its start to its end. -/
def isOutlineReference (text : Text) : Bool :=
  match outlineName? text with
  | some name => text == outlineReference name
  | none => false

/-- The construct at the start of a text inside an optional group. -/
def inline? (text : Text) : Option (Found Piece) :=
  escape? text <|> parameter? text <|> anonymous? text <|> outline? text

end StepGrammar
