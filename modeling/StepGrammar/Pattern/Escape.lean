import StepGrammar.Text.Basic

/-!
Contract: escapes in a step pattern.

A backslash before one of eight characters makes that character stand for itself. Before any other
character the backslash itself stands in the text.
-/

namespace StepGrammar

def escapables : List Char := ['{', '}', '(', ')', '/', '^', '$', ':']

/-- Whether a backslash before the character is an escape. -/
def isEscapable (character : Char) : Bool := escapables.contains character

/-- The text with the backslash of every escape dropped. -/
def unescape : Text → Text
  | [] => []
  | [character] => [character]
  | first :: second :: rest =>
    if first == '\\' && isEscapable second then second :: unescape rest
    else first :: unescape (second :: rest)

/-- The text with an escape for every character that can have one. -/
def escapeAll : Text → Text
  | [] => []
  | character :: rest =>
    if isEscapable character then '\\' :: character :: escapeAll rest
    else character :: escapeAll rest

end StepGrammar
