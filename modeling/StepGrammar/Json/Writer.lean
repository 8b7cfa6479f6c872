import StepGrammar.Json.Basic

/-!
Contract: the written form of JSON values.

The compact form has no blanks. The indented form puts every item and member on a line of its own,
two blanks deeper than its container, and writes an empty container without a line break. Strings
escape the quote, the backslash and the control characters below the blank, and nothing else.
-/

namespace StepGrammar.Json

def hexDigit (value : Nat) : Char := Nat.digitChar value

/-- The number of a code unit as four hexadecimal digits after a backslash and `u`. -/
def unicodeEscape (unit : Nat) : Text :=
  ['\\', 'u', hexDigit (unit / 4096 % 16), hexDigit (unit / 256 % 16), hexDigit (unit / 16 % 16),
    hexDigit (unit % 16)]

def writeCharacter (character : Char) : Text :=
  if character = '"' then ['\\', '"']
  else if character = '\\' then ['\\', '\\']
  else if character = '\x08' then ['\\', 'b']
  else if character = '\x0c' then ['\\', 'f']
  else if character = '\n' then ['\\', 'n']
  else if character = '\r' then ['\\', 'r']
  else if character = '\t' then ['\\', 't']
  else if character.toNat < 32 then unicodeEscape character.toNat
  else [character]

def writeString (text : Text) : Text := '"' :: text.flatMap writeCharacter ++ ['"']

def writeScalar : Json → Text
  | .null => "null".toList
  | .bool true => "true".toList
  | .bool false => "false".toList
  | .natural value => Text.ofNat value
  | .otherNumber spelling => spelling
  | .string value => writeString value
  | .unreadable => "\"\\ufffd\"".toList
  | .array _ => "[]".toList
  | .object _ => ['{', '}']

mutual

def compact : Json → Text
  | .array items => '[' :: compactItems items ++ [']']
  | .object members => '{' :: compactMembers members ++ ['}']
  | scalar => writeScalar scalar

def compactItems : List Json → Text
  | [] => []
  | [item] => compact item
  | item :: next :: rest => compact item ++ ',' :: compactItems (next :: rest)

def compactMembers : List (Text × Json) → Text
  | [] => []
  | [(name, value)] => writeString name ++ ':' :: compact value
  | (name, value) :: next :: rest =>
    writeString name ++ ':' :: compact value ++ ',' :: compactMembers (next :: rest)

end

def newLine (depth : Nat) : Text := '\n' :: List.replicate (2 * depth) ' '

mutual

/-- The indented written form of a value in a container of the given depth. -/
def indentedAt (depth : Nat) : Json → Text
  | .array (item :: rest) =>
    '[' :: indentedItems (depth + 1) (item :: rest) ++ newLine depth ++ [']']
  | .object (member :: rest) =>
    '{' :: indentedMembers (depth + 1) (member :: rest) ++ newLine depth ++ ['}']
  | scalar => writeScalar scalar

def indentedItems (depth : Nat) : List Json → Text
  | [] => []
  | [item] => newLine depth ++ indentedAt depth item
  | item :: next :: rest =>
    newLine depth ++ indentedAt depth item ++ ',' :: indentedItems depth (next :: rest)

def indentedMembers (depth : Nat) : List (Text × Json) → Text
  | [] => []
  | [(name, value)] =>
    newLine depth ++ writeString name ++ ": ".toList ++ indentedAt depth value
  | (name, value) :: next :: rest =>
    newLine depth ++ writeString name ++ ": ".toList ++ indentedAt depth value ++
      ',' :: indentedMembers depth (next :: rest)

end

def indented (value : Json) : Text := indentedAt 0 value

end StepGrammar.Json
