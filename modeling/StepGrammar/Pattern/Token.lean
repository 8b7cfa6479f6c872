import StepGrammar.Argument

/-!
Contract: the tokens of a step pattern.

A piece says what a token means and its raw text is the stretch of the pattern that it covers. An
optional group is one part of the pattern with a body of tokens; in the stream of tokens it is the
body between an opening and a closing token.
-/

namespace StepGrammar

inductive Piece where
  /-- The start or the end of the pattern, written out. -/
  | anchor
  /-- Characters that stand for themselves. -/
  | text (characters : Text)
  /-- A character that a backslash deprives of its meaning. -/
  | escape (character : Char)
  /-- The declaration of the data table below the step. -/
  | table (columns : Option (List Text))
  /-- An argument that takes one of a closed list of values. -/
  | enum (values : List Text)
  /-- An argument of a type, under its own name or a positional one. -/
  | parameter (type : ParameterType) (name : Option Text)
  /-- An argument without type and name. -/
  | anonymous
  | optionalOpen
  | optionalClose
  /-- Words of which any may stand in the text. -/
  | alternatives (words : List Text)
  /-- A reference to a column of a scenario outline, which stands for itself. -/
  | outline (name : Text)
deriving DecidableEq, Repr

/-- A piece together with the stretch of the pattern that it covers. -/
structure Token where
  piece : Piece
  raw : Text
deriving DecidableEq, Repr

/-- A token that stands alone or an optional group with its body. -/
inductive Part where
  | token (token : Token)
  | optional (body : List Token)
deriving DecidableEq, Repr

def Part.tokens : Part → List Token
  | .token single => [single]
  | .optional body => ⟨.optionalOpen, ['(']⟩ :: body ++ [⟨.optionalClose, [')']⟩]

/-- The declaration of an argument that still lacks its position. -/
structure Declaration where
  name : Option Text
  type : ArgType
  enumValues : Option (List Text) := none
  tableColumns : Option (List Text) := none
deriving DecidableEq, Repr

def Declaration.define (declaration : Declaration) (index : Nat) : ArgumentDefinition where
  name := declaration.name.getD (positionalName index)
  type := declaration.type
  enumValues := declaration.enumValues
  tableColumns := declaration.tableColumns

def Piece.declaration? : Piece → Option Declaration
  | .table columns => some { name := none, type := .table, tableColumns := columns }
  | .enum values => some { name := none, type := .enum, enumValues := some values }
  | .parameter type name => some { name := name, type := .parameter type }
  | .anonymous => some { name := none, type := .parameter .any }
  | _ => none

end StepGrammar
