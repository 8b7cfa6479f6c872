import StepGrammar.Text.Blank
import StepGrammar.Text.Word

/-!
Contract: regular expressions that are matched against a whole text.

An expression describes a text from its first character to its last; anchors exist only in the
written form. Repetition is over single characters. A capture group records the piece that it
consumed. Groups are numbered by their opening, and `groups` counts them.
-/

namespace StepGrammar

/-- A set of characters that one position of a text is tested against. -/
inductive CharClass where
  | only (character : Char)
  | except (character : Char)
  | digit
  | nonBlank
  | nonNewline
deriving DecidableEq, Repr

def CharClass.accepts : CharClass → Char → Bool
  | .only expected, character => character == expected
  | .except refused, character => character != refused
  | .digit, character => isDigit character
  | .nonBlank, character => !isBlank character
  | .nonNewline, character => character != '\n'

/-- A regular expression. Where two ways to match compete, `either` prefers its first operand, and
repetition and option prefer to consume. -/
inductive Regex where
  | empty
  | one (chars : CharClass)
  | star (chars : CharClass)
  | plus (chars : CharClass)
  | option (body : Regex)
  | append (first second : Regex)
  | either (first second : Regex)
  | capture (body : Regex)
deriving DecidableEq, Repr

namespace Regex

def groups : Regex → Nat
  | .empty | .one _ | .star _ | .plus _ => 0
  | .option body => body.groups
  | .append first second => first.groups + second.groups
  | .either first second => first.groups + second.groups
  | .capture body => body.groups + 1

def ofSequence (items : List Regex) : Regex := items.foldr .append .empty

/-- A choice among one or more expressions, the earlier ones preferred. -/
def ofAlternatives : Regex → List Regex → Regex
  | only, [] => only
  | first, next :: rest => .either first (ofAlternatives next rest)

def literal (text : Text) : Regex := ofSequence (text.map fun character => .one (.only character))

end Regex

end StepGrammar
