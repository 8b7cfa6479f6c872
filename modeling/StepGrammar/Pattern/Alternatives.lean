import StepGrammar.Pattern.Token
import StepGrammar.Text.Scan
import StepGrammar.Text.Word

/-!
Contract: words joined by slashes, of which any may stand in a text.

A chain has at least two words and is as long as possible. It is not recognised right after an
alphanumeric character or an underscore.
-/

namespace StepGrammar

def isChainCharacter (character : Char) : Bool := isWord character || character == '/'

/-- The words of the chain at the start of a text. A slash without a word before and after it does
not belong to the chain. -/
def chainWords (text : Text) : List Text :=
  if startsWord text then
    ((text.takeWhile isChainCharacter).splitOn '/').takeWhile fun word => !word.isEmpty
  else []

/-- Whether a character before a chain makes the chain part of a longer word. -/
def extendsWord (character : Char) : Bool := isAlphanumeric character || character == '_'

def alternatives? (previous : Option Char) (text : Text) : Option (Found Piece) :=
  if previous.any extendsWord then none
  else
    let words := chainWords text
    if 2 ≤ words.length then some ⟨.alternatives words, (Text.join ['/'] words).length⟩ else none

end StepGrammar
