import StepGrammar.Pattern.Escape
import StepGrammar.Pattern.Token
import StepGrammar.Text.Blank
import StepGrammar.Text.Scan

/-!
Contract: groups in parentheses.

A group runs from a parenthesis to the first closing parenthesis that is not escaped, and it holds
no opening parenthesis that is not escaped. With a bar inside, it is a choice from a closed list
of values; without, and with more than blanks inside, it is an optional group.
-/

namespace StepGrammar

/-- The content of the group whose opening parenthesis stands before the text. -/
def groupContent? : Text → Option Text
  | [] => none
  | [character] => if character == ')' then some [] else none
  | first :: second :: rest =>
    if first == ')' then some []
    else if first == '(' then none
    else if first == '\\' && isEscapable second then
      (groupContent? rest).map fun content => first :: second :: content
    else (groupContent? (second :: rest)).map fun content => first :: content

def group? : Text → Option Text
  | [] => none
  | character :: rest => if character == '(' then groupContent? rest else none

def groupLength (content : Text) : Nat := content.length + 2

/-- The values listed in the content of a group, blanks around them and empty ones dropped. -/
def enumValues (content : Text) : List Text :=
  ((content.splitOn '|').map fun value => unescape (Text.trim value)).filter
    fun value => !value.isEmpty

def enum? (text : Text) : Option (Found Piece) :=
  match group? text with
  | none => none
  | some content =>
    if content.contains '|' && !(enumValues content).isEmpty then
      some ⟨.enum (enumValues content), groupLength content⟩
    else none

def optionalContent? (text : Text) : Option Text :=
  match group? text with
  | none => none
  | some content => if content.contains '|' || content.all isBlank then none else some content

end StepGrammar
