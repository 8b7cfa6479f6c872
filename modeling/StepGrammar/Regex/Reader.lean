import StepGrammar.Regex.Basic
import StepGrammar.Regex.Escape

/-!
Contract: reading the written form of a regular expression.

The written form is anchored at both ends. Between the anchors stand characters, escaped
characters, the classes `\d`, `\S`, `.` and `[^c]`, groups with or without capture, alternatives
inside a group, and the greedy quantifiers. The reader keeps one frame for each group that is
open, so it passes over the text once.
-/

namespace StepGrammar.Regex

/-- A group that is still open: the alternatives that are complete and the items of the current
one, both with the latest first. -/
structure Frame where
  capturing : Bool
  alternatives : List Regex
  items : List Regex
deriving Repr

namespace Frame

def opened (capturing : Bool) : Frame := ⟨capturing, [], []⟩

def push (item : Regex) (frame : Frame) : Frame := { frame with items := item :: frame.items }

def current (frame : Frame) : Regex := ofSequence frame.items.reverse

/-- The frame after the bar that ends its current alternative. -/
def nextAlternative (frame : Frame) : Frame :=
  { frame with alternatives := frame.current :: frame.alternatives, items := [] }

def close (frame : Frame) : Regex :=
  let body :=
    match (frame.current :: frame.alternatives).reverse with
    | [] => .empty
    | first :: rest => ofAlternatives first rest
  if frame.capturing then .capture body else body

end Frame

/-- The class named by a backslash and a character, or the character itself where it is a meta
character. -/
def escapedClass? (character : Char) : Option CharClass :=
  if character = 'd' then some .digit
  else if character = 'S' then some .nonBlank
  else if metaCharacters.contains character then some (.only character)
  else none

/-- The last item with a quantifier applied to it. -/
def quantify? (quantifier : Char) : List Regex → Option (List Regex)
  | .one chars :: rest =>
    if quantifier = '*' then some (.star chars :: rest)
    else if quantifier = '+' then some (.plus chars :: rest)
    else some (.option (.one chars) :: rest)
  | .append first second :: rest =>
    if quantifier = '?' then some (.option (.append first second) :: rest) else none
  | .either first second :: rest =>
    if quantifier = '?' then some (.option (.either first second) :: rest) else none
  | .capture body :: rest =>
    if quantifier = '?' then some (.option (.capture body) :: rest) else none
  | _ => none

/-- Reads what follows the opening anchor, inside the given frame and the frames around it. -/
def readItems (frame : Frame) (outer : List Frame) : Text → Option Regex
  | [] => none
  | '\\' :: character :: rest =>
    match escapedClass? character with
    | some chars => readItems (frame.push (.one chars)) outer rest
    | none => none
  | '(' :: '?' :: ':' :: rest => readItems (.opened false) (frame :: outer) rest
  | '(' :: rest => readItems (.opened true) (frame :: outer) rest
  | '[' :: '^' :: character :: ']' :: rest =>
    readItems (frame.push (.one (.except character))) outer rest
  | character :: rest =>
    if character = ')' then
      match outer with
      | enclosing :: others => readItems (enclosing.push frame.close) others rest
      | [] => none
    else if character = '|' then
      if outer.isEmpty then none else readItems frame.nextAlternative outer rest
    else if character = '*' ∨ character = '+' ∨ character = '?' then
      match quantify? character frame.items with
      | some items => readItems { frame with items := items } outer rest
      | none => none
    else if character = '.' then readItems (frame.push (.one .nonNewline)) outer rest
    else if character = '$' then
      if rest.isEmpty && outer.isEmpty then some frame.current else none
    else if ['\\', '[', ']', '{', '}', '^'].contains character then none
    else readItems (frame.push (.one (.only character))) outer rest

def read? : Text → Option Regex
  | '^' :: rest => readItems (.opened false) [] rest
  | _ => none

end StepGrammar.Regex
