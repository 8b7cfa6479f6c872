import StepGrammar.Json.Basic

/-!
Contract: reading JSON.

The grammar is strict: one value with blanks around it, no comments, no trailing commas, no
leading zeros, no control characters inside strings. An escape that spells half of a surrogate
pair makes its string unreadable without making the document malformed.
-/

namespace StepGrammar.Json

def isSpace (character : Char) : Bool := [' ', '\t', '\n', '\r'].contains character

def skipSpace (text : Text) : Text := text.dropWhile isSpace

def isAsciiDigit (character : Char) : Bool := '0' ≤ character && character ≤ '9'

def hexValue? (character : Char) : Option Nat :=
  if '0' ≤ character && character ≤ '9' then some (character.toNat - '0'.toNat)
  else if 'a' ≤ character && character ≤ 'f' then some (character.toNat - 'a'.toNat + 10)
  else if 'A' ≤ character && character ≤ 'F' then some (character.toNat - 'A'.toNat + 10)
  else none

def hexUnit? (first second third fourth : Char) : Option Nat :=
  match hexValue? first, hexValue? second, hexValue? third, hexValue? fourth with
  | some a, some b, some c, some d => some (((a * 16 + b) * 16 + c) * 16 + d)
  | _, _, _, _ => none

/-- A unit of a string literal: a character, or a code unit written as an escape. -/
inductive StringUnit where
  | character (value : Char)
  | codeUnit (value : Nat)
deriving DecidableEq, Repr

def simpleEscape? (letter : Char) : Option Char :=
  match letter with
  | '"' => some '"'
  | '\\' => some '\\'
  | '/' => some '/'
  | 'b' => some '\x08'
  | 'f' => some '\x0c'
  | 'n' => some '\n'
  | 'r' => some '\r'
  | 't' => some '\t'
  | _ => none

/-- The units of a string whose opening quote was read, and the text after its closing quote. -/
def stringUnits : Text → Option (List StringUnit × Text)
  | [] => none
  | '"' :: rest => some ([], rest)
  | '\\' :: 'u' :: first :: second :: third :: fourth :: rest =>
    match hexUnit? first second third fourth, stringUnits rest with
    | some unit, some (units, remaining) => some (.codeUnit unit :: units, remaining)
    | _, _ => none
  | '\\' :: letter :: rest =>
    match simpleEscape? letter, stringUnits rest with
    | some character, some (units, remaining) => some (.character character :: units, remaining)
    | _, _ => none
  | character :: rest =>
    if character.toNat < 32 || character = '\\' then none
    else (stringUnits rest).map fun (units, remaining) => (.character character :: units, remaining)

def isHighSurrogate (unit : Nat) : Bool := 55296 ≤ unit && unit < 56320

def isLowSurrogate (unit : Nat) : Bool := 56320 ≤ unit && unit < 57344

/-- The text that units spell, unless one of them is half of a surrogate pair. -/
def unitsText? : List StringUnit → Option Text
  | [] => some []
  | .codeUnit high :: .codeUnit low :: rest =>
    if isHighSurrogate high then
      if isLowSurrogate low then
        (unitsText? rest).map
          (Char.ofNat (65536 + (high - 55296) * 1024 + (low - 56320)) :: ·)
      else none
    else if isLowSurrogate high then none
    else (unitsText? (.codeUnit low :: rest)).map (Char.ofNat high :: ·)
  | .codeUnit unit :: rest =>
    if isHighSurrogate unit || isLowSurrogate unit then none
    else (unitsText? rest).map (Char.ofNat unit :: ·)
  | .character value :: rest => (unitsText? rest).map (value :: ·)

def naturalOfDigits (digits : Text) : Nat :=
  digits.foldl (fun value digit => value * 10 + (digit.toNat - '0'.toNat)) 0

/-- The digits at the start of a text, at least one, and the text after them. -/
def digits? (text : Text) : Option (Text × Text) :=
  let digits := text.takeWhile isAsciiDigit
  if digits.isEmpty then none else some (digits, text.dropWhile isAsciiDigit)

/-- The digits before the point of a number, without a leading zero, and the text after them. -/
def integerDigits? (text : Text) : Option (Text × Text) :=
  match digits? text with
  | some ('0' :: _ :: _, _) => none
  | other => other

/-- The fraction at the start of a text, empty where there is no point. -/
def fraction? : Text → Option (Text × Text)
  | '.' :: rest => (digits? rest).map fun (digits, remaining) => ('.' :: digits, remaining)
  | text => some ([], text)

def signOf : Text → Text × Text
  | '+' :: rest => (['+'], rest)
  | '-' :: rest => (['-'], rest)
  | text => ([], text)

def exponent? : Text → Option (Text × Text)
  | [] => some ([], [])
  | letter :: rest =>
    if letter = 'e' || letter = 'E' then
      let (sign, unsigned) := signOf rest
      (digits? unsigned).map fun (digits, remaining) => (letter :: sign ++ digits, remaining)
    else some ([], letter :: rest)

def number? (text : Text) : Option (Json × Text) :=
  let (sign, unsigned) :=
    match text with
    | '-' :: rest => (['-'], rest)
    | _ => ([], text)
  match integerDigits? unsigned with
  | none => none
  | some (digits, afterDigits) =>
    match fraction? afterDigits with
    | none => none
    | some (fraction, afterFraction) =>
      match exponent? afterFraction with
      | none => none
      | some (exponent, rest) =>
        if sign.isEmpty && fraction.isEmpty && exponent.isEmpty then
          some (.natural (naturalOfDigits digits), rest)
        else some (.otherNumber (sign ++ digits ++ fraction ++ exponent), rest)

def keyword? (word : Text) : Option Json :=
  if word = "null".toList then some .null
  else if word = "true".toList then some (.bool true)
  else if word = "false".toList then some (.bool false)
  else none

/-- The object with the given members, of which each name is a list of units. -/
def objectOf (members : List (List StringUnit × Json)) : Json :=
  match members.mapM fun (name, value) => (unitsText? name).map fun text => (text, value) with
  | some readable => .object readable
  | none => .unreadable

mutual

/-- The value at the start of a text, and the text after it. Every call passes on less fuel than
it was given, and reads at least one character. -/
def readValue? : (fuel : Nat) → Text → Option (Json × Text)
  | 0, _ => none
  | fuel + 1, text =>
    match skipSpace text with
    | [] => none
    | '"' :: rest =>
      (stringUnits rest).map fun (units, remaining) =>
        match unitsText? units with
        | some text => (.string text, remaining)
        | none => (.unreadable, remaining)
    | '[' :: rest =>
      match skipSpace rest with
      | ']' :: remaining => some (.array [], remaining)
      | items => (readItems? fuel items).map fun (values, remaining) => (.array values, remaining)
    | '{' :: rest =>
      match skipSpace rest with
      | '}' :: remaining => some (.object [], remaining)
      | members =>
        (readMembers? fuel members).map fun (entries, remaining) => (objectOf entries, remaining)
    | first :: rest =>
      if first = '-' || isAsciiDigit first then number? (first :: rest)
      else
        (keyword? ((first :: rest).takeWhile Char.isLower)).map fun word =>
          (word, (first :: rest).dropWhile Char.isLower)

/-- The items of an array that holds one, up to its closing bracket. -/
def readItems? : (fuel : Nat) → Text → Option (List Json × Text)
  | 0, _ => none
  | fuel + 1, text =>
    match readValue? fuel text with
    | none => none
    | some (value, rest) =>
      match skipSpace rest with
      | ']' :: remaining => some ([value], remaining)
      | ',' :: next =>
        (readItems? fuel next).map fun (values, remaining) => (value :: values, remaining)
      | _ => none

def readMembers? : (fuel : Nat) → Text → Option (List (List StringUnit × Json) × Text)
  | 0, _ => none
  | fuel + 1, text =>
    match skipSpace text with
    | '"' :: rest =>
      match stringUnits rest with
      | none => none
      | some (name, afterName) =>
        match skipSpace afterName with
        | ':' :: afterColon =>
          match readValue? fuel afterColon with
          | none => none
          | some (value, afterValue) =>
            match skipSpace afterValue with
            | '}' :: remaining => some ([(name, value)], remaining)
            | ',' :: next =>
              (readMembers? fuel next).map fun (entries, remaining) =>
                ((name, value) :: entries, remaining)
            | _ => none
        | _ => none
    | _ => none

end

def read? (text : Text) : Option Json :=
  match readValue? (text.length + 1) text with
  | some (value, rest) => if (skipSpace rest).isEmpty then some value else none
  | none => none

end StepGrammar.Json
