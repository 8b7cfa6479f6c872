import StepGrammar.Text.Alphabetic
import StepGrammar.Text.Basic
import StepGrammar.Text.Mark
import StepGrammar.Text.Numeric

/-!
Contract: digits, word characters and alphanumeric characters.

Three classes that overlap without containing each other: a combining mark is a word character but
not alphanumeric, and a superscript digit is alphanumeric but neither a word character nor a
decimal digit. The classes also differ in their edition of the character database. Digits and word
characters are those of Unicode 16.0, and alphanumeric characters those of Unicode 17.0, so a letter
that is new in 17.0 is alphanumeric without being a word character.
-/

namespace StepGrammar

/-- Connector punctuation (general category Pc), the underscore among them. -/
def CodePoints.connector : CodePoints :=
  [(0x5F, 0x5F), (0x203F, 0x2040), (0x2054, 0x2054), (0xFE33, 0xFE34), (0xFE4D, 0xFE4F),
   (0xFF3F, 0xFF3F)]

/-- The two characters with the property Join_Control. -/
def CodePoints.joinControl : CodePoints :=
  [(0x200C, 0x200D)]

/-- Characters that Unicode 17.0 added with the property Alphabetic or general category N. It took
no character out of either class. -/
def CodePoints.newAlphanumeric : CodePoints :=
  [(0x88F, 0x88F), (0xC5C, 0xC5C), (0xCDC, 0xCDC), (0xA7CE, 0xA7CF), (0xA7D2, 0xA7D2),
   (0xA7D4, 0xA7D4), (0xA7F1, 0xA7F1), (0x10940, 0x10959), (0x10EC5, 0x10EC7), (0x10EFA, 0x10EFB),
   (0x11B60, 0x11B67), (0x11DB0, 0x11DDB), (0x11DE0, 0x11DE9), (0x16EA0, 0x16EB8),
   (0x16EBB, 0x16ED3), (0x16FF2, 0x16FF6), (0x187F8, 0x187FF), (0x18D09, 0x18D1E),
   (0x18D80, 0x18DF2), (0x1E6C0, 0x1E6DE), (0x1E6E0, 0x1E6F5), (0x1E6FE, 0x1E6FF),
   (0x2B73A, 0x2B73F), (0x2CEA2, 0x2CEAD), (0x323B0, 0x33479)]

/-- A decimal digit of any script. -/
def isDigit (character : Char) : Bool := CodePoints.decimalDigit.contains character.toNat

/-- A word character: alphabetic, a mark, a decimal digit, a connector or a join control. -/
def isWord (character : Char) : Bool :=
  CodePoints.alphabetic.contains character.toNat ||
    CodePoints.mark.contains character.toNat ||
    isDigit character ||
    CodePoints.connector.contains character.toNat ||
    CodePoints.joinControl.contains character.toNat

def startsWord : Text → Bool
  | [] => false
  | character :: _ => isWord character

/-- An alphabetic or numeric character. -/
def isAlphanumeric (character : Char) : Bool :=
  CodePoints.alphabetic.contains character.toNat ||
    isDigit character ||
    CodePoints.otherNumber.contains character.toNat ||
    CodePoints.newAlphanumeric.contains character.toNat

end StepGrammar
