import StepGrammar.Definition
import StepGrammar.Pattern.Inline

/-!
Contract: from a pattern and values back to step text.

Values are handed out by type, in the order of the tokens, and no value is handed out twice. A
choice takes the next value for a choice. A parameter takes the next value of its type, or else
the next value of any parameter type. Empty braces take the next value of a type of which more
values are left than parameters of that type still follow.
-/

namespace StepGrammar

namespace ConcreteArg

def isFor (type : ParameterType) (arg : ConcreteArg) : Bool := arg.type == .parameter type

def isInline (arg : ConcreteArg) : Bool :=
  match arg.type with
  | .parameter _ => true
  | _ => false

end ConcreteArg

def Piece.isParameter (type : ParameterType) : Piece → Bool
  | .parameter other _ => other == type
  | _ => false

/-- Whether more values of a type are left than parameters of that type follow. -/
def isSpare (later : List Piece) (values : List ConcreteArg) (type : ParameterType) : Bool :=
  later.countP (Piece.isParameter type) < values.countP (ConcreteArg.isFor type)

/-- The values that a piece may take, given the pieces after it and the values that are left. -/
def Piece.takes (later : List Piece) (values : List ConcreteArg) : Piece → ConcreteArg → Bool
  | .enum _, arg => arg.type == .enum
  | .parameter type _, arg =>
    if values.any (ConcreteArg.isFor type) then arg.isFor type else arg.isInline
  | .anonymous, arg => ParameterType.all.any fun type => isSpare later values type && arg.isFor type
  | _, _ => false

def allocate : List Piece → List ConcreteArg → List (Option ConcreteArg)
  | [], _ => []
  | piece :: later, values =>
    values.find? (piece.takes later values) ::
      allocate later (values.eraseP (piece.takes later values))

/-- The text between quotes that it does not contain itself, double quotes preferred. -/
def quote (text : Text) : Text :=
  if text.contains '"' && !text.contains '\x27' then '\x27' :: text ++ ['\x27']
  else '"' :: text ++ ['"']

def ParameterType.written (type : ParameterType) (value : Text) : Text :=
  if type = .string && !isOutlineReference value then quote value else value

/-- The chosen value of a list, which is the first one when nothing is chosen. -/
def chosenValue (values : List Text) : Option Text → Text
  | some (first :: rest) => first :: rest
  | _ => values.headD []

def Piece.resolve (value : Option Text) : Piece → Text
  | .anchor | .optionalOpen | .optionalClose => []
  | .text characters => characters
  | .escape character => [character]
  | .table _ => [':']
  | .enum values => chosenValue values value
  | .parameter type _ => type.written (value.getD [])
  | .anonymous => value.getD []
  | .alternatives words => words.headD []
  | .outline name => outlineReference name

def resolvePieces (pieces : List Piece) (values : List (Option Text)) : Text :=
  (List.zipWith (fun piece value => Piece.resolve value piece) pieces values).flatten

def Pattern.resolve (pattern : Pattern) (values : List ConcreteArg) : Text :=
  let pieces := pattern.tokens.map fun token => token.piece
  resolvePieces pieces ((allocate pieces values).map fun arg => arg.map fun taken => taken.value)

/-- The arguments of a pattern with the given values in order, as far as both go. -/
def Pattern.argumentsWith (pattern : Pattern) (values : List Text) : List ConcreteArg :=
  List.zipWith ConcreteArg.mk pattern.arguments values

end StepGrammar
