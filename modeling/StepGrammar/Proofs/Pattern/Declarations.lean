import StepGrammar.Proofs.Pattern.Units

/-!
Contract: the declarations that a lexer reads from a position of a pattern on.

They are the declarations of the units: a construct at the position gives its own declarations and
is passed over whole, and a character where nothing is found gives none.
-/

namespace StepGrammar

/-- What the tokens from a position on declare. -/
def declarationsFrom (previous : Option Char) (text : Text) : List Declaration :=
  ((scanFrom part? previous 0 text).flatMap fun span => span.part.tokens).filterMap
    fun token => token.piece.declaration?

theorem filterMap_declaration?_units (piece : Piece) :
    piece.units.filterMap Piece.declaration? = piece.declaration?.toList := by
  cases piece with
  | text characters => simp [Piece.units, Piece.declaration?, List.filterMap_map]
  | _ => rfl

variable {previous : Option Char} {character : Char} {text rest : Text}

theorem declarationsFrom_eq_units (previous : Option Char) (text : Text) :
    declarationsFrom previous text = (unitsFrom previous text).filterMap Piece.declaration? := by
  rw [unitsFrom, List.filterMap_flatMap, declarationsFrom, List.filterMap_eq_flatMap_toList]
  simp only [filterMap_declaration?_units]

theorem declarationsFrom_of_none (nothing : part? previous (character :: rest) = none) :
    declarationsFrom previous (character :: rest) = declarationsFrom (some character) rest := by
  rw [declarationsFrom_eq_units, unitsFrom_of_none nothing, declarationsFrom_eq_units]
  rfl

theorem declarationsFrom_escape (escapable : isEscapable character) :
    declarationsFrom previous ('\\' :: character :: rest) =
      declarationsFrom (some character) rest := by
  rw [declarationsFrom_eq_units, unitsFrom_escape escapable, declarationsFrom_eq_units]
  rfl

theorem declarationsFrom_parameter (type : ParameterType) :
    declarationsFrom previous ('{' :: (type.name ++ '}' :: rest)) =
      { name := none, type := .parameter type } :: declarationsFrom (some '}') rest := by
  rw [declarationsFrom_eq_units, unitsFrom_parameter, declarationsFrom_eq_units]
  rfl

/-- A reference to a column of an outline is passed over with all that stands in it. -/
theorem declarationsFrom_outline {name : Text} (bracketFree : name.all isOutlineCharacter)
    (starts : name.head?.any fun first => !isBlank first) :
    declarationsFrom previous ('<' :: (name ++ '>' :: rest)) =
      declarationsFrom (some '>') rest := by
  rw [declarationsFrom_eq_units, unitsFrom_outline bracketFree starts, declarationsFrom_eq_units]
  rfl

end StepGrammar
