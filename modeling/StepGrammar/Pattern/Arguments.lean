import StepGrammar.Pattern.Lexer

/-!
Contract: the arguments that a pattern declares.

Arguments are numbered from zero in the order of their tokens. A pattern that ends in a table
declares the table alone, since its inline arguments have no caller that could supply them.
-/

namespace StepGrammar

def Piece.isTable : Piece → Bool
  | .table _ => true
  | _ => false

/-- The arguments declared by a list of tokens, tables included. -/
def tokenArguments (tokens : List Token) : List ArgumentDefinition :=
  (tokens.filterMap fun token => token.piece.declaration?).mapIdx fun index declaration =>
    declaration.define index

/-- Whether the last token that is not an anchor declares a table. -/
def endsInTable (tokens : List Token) : Bool :=
  let inner := tokens.filter fun token => token.piece != .anchor
  inner.getLast?.any fun token => token.piece.isTable

def Pattern.arguments (pattern : Pattern) : List ArgumentDefinition :=
  let tokens := pattern.tokens
  if endsInTable tokens then
    tokenArguments ((tokens.filter fun token => token.piece.isTable).take 1)
  else tokenArguments tokens

end StepGrammar
