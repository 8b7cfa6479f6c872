import StepGrammar.Text.Basic
import StepGrammar.Text.CodePoints

/-!
Contract: blank characters and trimming.

A character is blank when it has the Unicode property White_Space. The zero-width space, the byte
order mark and the information separators are not blank.
-/

namespace StepGrammar

/-- Characters with the property White_Space. -/
def CodePoints.whiteSpace : CodePoints :=
  [(0x9, 0xD), (0x20, 0x20), (0x85, 0x85), (0xA0, 0xA0), (0x1680, 0x1680), (0x2000, 0x200A),
   (0x2028, 0x2029), (0x202F, 0x202F), (0x205F, 0x205F), (0x3000, 0x3000)]

/-- Whether a character is White_Space. -/
def isBlank (character : Char) : Bool := CodePoints.whiteSpace.contains character.toNat

namespace Text

def trimStart (text : Text) : Text := text.dropWhile isBlank

def trimEnd (text : Text) : Text := (text.reverse.dropWhile isBlank).reverse

def trim (text : Text) : Text := trimEnd (trimStart text)

end Text

end StepGrammar
