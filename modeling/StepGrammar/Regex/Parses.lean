import StepGrammar.Regex.Basic

/-!
Contract: the meaning of a regular expression.

`parsesWith` lists every way to match an expression at the start of a text, the preferred way
first. A way is a record of each capture group, `none` for a group that took no part, together
with the text left over. `parses` records the pieces that the groups consumed. The match of a
whole text is the first way that leaves nothing over.
-/

namespace StepGrammar

/-- The pieces held by the capture groups of an expression, in the order of the groups. -/
abbrev Captures := List (Option Text)

/-- The piece of a text before what is left over of it. -/
def consumed (text rest : Text) : Text := text.take (text.length - rest.length)

namespace Regex

variable {γ : Type}

/-- The records of the groups of an expression that took no part in a match. -/
def absent (expression : Regex) : List (Option γ) := List.replicate expression.groups none

/-- What is left over after each repetition of a class at the start of a text, the longest
repetition first. -/
def repetitions (chars : CharClass) : Text → List Text
  | [] => [[]]
  | character :: rest =>
    if chars.accepts character then repetitions chars rest ++ [character :: rest]
    else [character :: rest]

def single (chars : CharClass) : Text → List Text
  | [] => []
  | character :: rest => if chars.accepts character then [rest] else []

/-- Every way to match an expression at the start of a text, in order of preference. A capture
group is recorded from the text at its start and the text left over at its end. -/
def parsesWith (record : Text → Text → γ) : Regex → Text → List (List (Option γ) × Text)
  | .empty, text => [([], text)]
  | .one chars, text => (single chars text).map fun rest => ([], rest)
  | .star chars, text => (repetitions chars text).map fun rest => ([], rest)
  | .plus chars, text =>
    ((single chars text).flatMap (repetitions chars)).map fun rest => ([], rest)
  | .option body, text => body.parsesWith record text ++ [(absent body, text)]
  | .append first second, text =>
    (first.parsesWith record text).flatMap fun (captured, rest) =>
      (second.parsesWith record rest).map fun (later, remaining) => (captured ++ later, remaining)
  | .either first second, text =>
    (first.parsesWith record text).map
        (fun (captured, rest) => (captured ++ absent second, rest)) ++
      (second.parsesWith record text).map
        (fun (captured, rest) => (absent first ++ captured, rest))
  | .capture body, text =>
    (body.parsesWith record text).map fun (captured, rest) =>
      (some (record text rest) :: captured, rest)

def parses (expression : Regex) (text : Text) : List (Captures × Text) :=
  expression.parsesWith consumed text

/-- The captures of the preferred way to match a whole text. -/
def fullMatch? (expression : Regex) (text : Text) : Option Captures :=
  (expression.parses text).findSome? fun (captured, rest) =>
    if rest.isEmpty then some captured else none

end Regex

end StepGrammar
