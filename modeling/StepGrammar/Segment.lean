import StepGrammar.Definition

/-!
Contract: a pattern as a sequence of editable segments.

Choices, parameters, empty braces and outline references are argument segments; all else is text,
in stretches as long as possible. The values of the segments, one after the other, are the
pattern. A caller may supply definitions in the order of the arguments: names and the required
flag come from the caller, and the values of a choice do when the caller lists any. Outline
references take nothing from the caller, and no argument does in a pattern that ends in a table.
-/

namespace StepGrammar

inductive SegmentKind where
  | text
  | arg
deriving DecidableEq, Repr

def SegmentKind.name : SegmentKind → Text
  | .text => "text".toList
  | .arg => "arg".toList

/-- A stretch of a pattern, with its definition when it is an argument. -/
structure PatternSegment where
  kind : SegmentKind
  value : Text
  arg : Option ArgumentDefinition := none
deriving DecidableEq, Repr

def ArgumentDefinition.listedValues (definition : ArgumentDefinition) : List Text :=
  definition.enumValues.getD []

/-- The values of a choice: the caller's if there are any, else those of the pattern. -/
def mergedEnumValues (parsed caller : ArgumentDefinition) : Option (List Text) :=
  if parsed.type = .enum then
    if caller.listedValues.isEmpty then parsed.enumValues else caller.enumValues
  else none

/-- The definition that a pattern declares, completed by the caller's definition of the same
argument. -/
def ArgumentDefinition.merge (parsed : ArgumentDefinition) :
    Option ArgumentDefinition → ArgumentDefinition
  | none => parsed
  | some caller =>
    { name := caller.name
      type := parsed.type
      required := caller.required
      enumValues := mergedEnumValues parsed caller
      tableColumns := parsed.tableColumns }

namespace PatternSegment

def ofText (value : Text) : PatternSegment := { kind := .text, value := value }

def ofArg (value : Text) (definition : ArgumentDefinition) : PatternSegment :=
  { kind := .arg, value := value, arg := some definition }

/-- Puts text before segments, joining it to a text segment that comes first. -/
def consText (value : Text) : List PatternSegment → List PatternSegment
  | [] => [ofText value]
  | first :: rest =>
    if first.kind = .text then ofText (value ++ first.value) :: rest
    else ofText value :: first :: rest

end PatternSegment

/-- What a piece declares as an argument inside a step line. -/
def Piece.inlineDeclaration? (piece : Piece) : Option Declaration :=
  if piece.isTable then none else piece.declaration?

/-- The segments of tokens of which the first argument has the given position. -/
def segmentsFrom (caller : List ArgumentDefinition) (index : Nat) : List Token → List PatternSegment
  | [] => []
  | token :: rest =>
    match token.piece with
    | .outline name =>
      .ofArg token.raw { name := name, type := .parameter .string } ::
        segmentsFrom caller index rest
    | piece =>
      match piece.inlineDeclaration? with
      | some declaration =>
        .ofArg token.raw ((declaration.define index).merge caller[index]?) ::
          segmentsFrom caller (index + 1) rest
      | none => PatternSegment.consText token.raw (segmentsFrom caller index rest)

def Pattern.segments (pattern : Pattern) (caller : List ArgumentDefinition) : List PatternSegment :=
  let tokens := pattern.tokens
  segmentsFrom (if endsInTable tokens then [] else caller) 0 tokens

end StepGrammar
