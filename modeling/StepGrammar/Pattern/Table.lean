import StepGrammar.Pattern.Token
import StepGrammar.Text.Blank
import StepGrammar.Text.Scan

/-!
Contract: the declaration of a data table.

A colon that ends a pattern, blanks after it aside, declares a table below the step. A list of
columns in parentheses may stand before the colon, with blanks before and after it; it then
belongs to the declaration.
-/

namespace StepGrammar

/-- Whether a text is a colon followed by blanks only. -/
def isClosingColon : Text → Bool
  | [] => false
  | character :: rest => character == ':' && rest.all isBlank

/-- The names listed between the parentheses of a column list, blanks around them and empty ones
dropped. -/
def columnNames (content : Text) : List Text :=
  ((content.splitOn ',').map Text.trim).filter fun column => !column.isEmpty

def isColumnCharacter (character : Char) : Bool := !(['(', ')', '|'].contains character)

/-- The content of the column list that, with the colon after it, makes up the text. -/
def columnList? (text : Text) : Option Text :=
  match Text.trimStart text with
  | [] => none
  | character :: rest =>
    if character == '(' then
      match rest.dropWhile isColumnCharacter with
      | [] => none
      | closing :: remaining =>
        if closing == ')' && isClosingColon (Text.trimStart remaining) then
          some (rest.takeWhile isColumnCharacter)
        else none
    else none

def table? (text : Text) : Option (Found Piece) :=
  match columnList? text with
  | some content =>
    let columns := columnNames content
    some ⟨.table (if columns.isEmpty then none else some columns), text.length⟩
  | none => if isClosingColon text then some ⟨.table none, text.length⟩ else none

end StepGrammar
