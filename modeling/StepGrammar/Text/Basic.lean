/-!
Contract: the representation of text.

A text is the list of its Unicode characters. Every rule of the library is a function on this
list, so a length counts characters and a position is the number of characters before it.
-/

namespace StepGrammar

/-- Text, as the list of its characters. -/
abbrev Text := List Char

namespace Text

/-- The decimal spelling of a natural number, without leading zeros. -/
def ofNat (value : Nat) : Text := Nat.toDigits 10 value

def join (separator : Text) (parts : List Text) : Text := separator.intercalate parts

/-- The text with the ASCII capitals replaced by small letters; every other character stays. -/
def asciiLower (text : Text) : Text := text.map Char.toLower

end Text

end StepGrammar
