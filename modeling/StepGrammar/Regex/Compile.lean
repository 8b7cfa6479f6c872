import StepGrammar.Regex.Reader

/-!
Contract: from the written form to an expression that is ready to match.

An expression is refused when its automaton would be too large. The check is the engine's own, so
`compileWith` takes it as a parameter: whatever it refuses, an expression that passes is the one
that was read. `compile` runs with `isWithinLimit`, an estimate of that check. It is not exact near
the limit, and no general result depends on the sizes it counts.

The estimate counts the automaton that reads the UTF-8 bytes of a text from the last to the first.
A state takes thirty-two bytes, and a state that branches takes four more for each branch. A class
of characters needs a state for every range of bytes that its encodings do not share.
-/

namespace StepGrammar

def stateSize : Nat := 32

/-- The size in bytes of the automaton for one test of the class. The size of the digits is a mean,
since it depends a little on the place of the class in the expression. -/
def CharClass.size : CharClass → Nat
  | .only character => stateSize * character.utf8Size
  | .except _ | .nonNewline => 1000
  | .nonBlank => 1924
  | .digit => 5126

namespace Regex

/-- The size in bytes of the automaton of an expression, nearly. A repetition adds a state with two
branches, an option adds such a state and one to leave it by, and a choice adds a state to enter it
and one to leave it by, which its alternatives share. -/
def size : Regex → Nat
  | .empty => 0
  | .one chars => chars.size
  | .star chars | .plus chars => chars.size + stateSize + 8
  | .option body => body.size + 2 * stateSize + 8
  | .append first second => first.size + second.size
  | .either first second => first.size + second.size + stateSize + 6
  | .capture body => body.size

/-- The size in bytes of the automaton of an anchored expression: four states enter it, test the
two ends of the text, and accept. -/
def anchoredSize (expression : Regex) : Nat := expression.size + 4 * stateSize

/-- The largest automaton that is accepted, in bytes. -/
def sizeLimit : Nat := 10485760

/-- An estimate of the engine's check, from which it may differ near the limit. -/
def isWithinLimit (expression : Regex) : Bool := expression.anchoredSize ≤ sizeLimit

inductive CompileError where
  | malformed
  | tooLarge (limit : Nat)
deriving DecidableEq, Repr

def CompileError.message : CompileError → Text
  | .malformed => "step pattern does not compile: malformed regular expression".toList
  | .tooLarge limit =>
    "step pattern does not compile: Compiled regex exceeds size limit of ".toList ++
      Text.ofNat limit ++ " bytes.".toList

/-- Reads a written form, which is refused where the given check of its size fails. -/
def compileWith (fits : Regex → Bool) (source : Text) : Except CompileError Regex :=
  match read? source with
  | none => .error .malformed
  | some expression => if fits expression then .ok expression else .error (.tooLarge sizeLimit)

def compile (source : Text) : Except CompileError Regex := compileWith isWithinLimit source

end Regex

end StepGrammar
