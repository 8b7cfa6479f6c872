import StepGrammar.Pattern.Arguments
import StepGrammar.Proofs.Pattern.Tokens
import StepGrammar.Proofs.Text.Scan

/-!
Contract: the units that a lexer reads from a position of a pattern on.

Literal text is one unit for each character, whether the character was escaped or not. The units
therefore do not depend on where one stretch of literal text ends and the next begins. A construct
at the position gives its own units and is passed over whole. What is found depends on the first
character, but for a table, which needs the rest of the pattern, and for a chain of words.
-/

namespace StepGrammar

/-- A piece with literal text taken apart into its characters. -/
def Piece.units : Piece → List Piece
  | .text characters => characters.map .escape
  | piece => [piece]

def unitsFrom (previous : Option Char) (text : Text) : List Piece :=
  ((scanFrom part? previous 0 text).flatMap fun span => span.part.tokens).flatMap
    fun token => token.piece.units

theorem flatMap_units_cons (character : Char) (spans : List (Span Part)) :
    ((Span.cons character spans).flatMap fun span => span.part.tokens).flatMap
        (fun token => token.piece.units) =
      .escape character ::
        (spans.flatMap fun span => span.part.tokens).flatMap fun token => token.piece.units := by
  cases spans with
  | nil => rfl
  | cons first rest => cases first <;> rfl

variable {previous : Option Char} {character : Char} {text rest : Text}

theorem unitsFrom_of_none (nothing : part? previous (character :: rest) = none) :
    unitsFrom previous (character :: rest) =
      .escape character :: unitsFrom (some character) rest := by
  rw [unitsFrom, scanFrom, nothing]
  exact flatMap_units_cons character _

theorem unitsFrom_of_found {front : Text} {part : Part}
    (found : part? previous (character :: (front ++ rest)) = some ⟨part, front.length + 1⟩) :
    unitsFrom previous (character :: (front ++ rest)) =
      part.tokens.flatMap (fun token => token.piece.units) ++
        unitsFrom (front.getLast?.or (some character)) rest := by
  rw [unitsFrom, scanFrom, found, unitsFrom, ← scanFrom_covered, List.flatMap_cons,
    List.flatMap_append]
  rfl

/-! ## What is found by the first character -/

theorem escape?_eq_none (different : character ≠ '\\' ∨ ¬rest.head?.any isEscapable) :
    escape? (character :: rest) = none := by
  cases rest with
  | nil => rfl
  | cons second others =>
      rw [escape?, if_neg]
      rcases different with other | notEscapable
      · simp [other]
      · simpa using fun _ => notEscapable

theorem table?_eq_none (notColon : ¬isClosingColon text)
    (notOpening : (Text.trimStart text).head? ≠ some '(') : table? text = none := by
  have noColumns : columnList? text = none := by
    unfold columnList?
    cases trimmed : Text.trimStart text with
    | nil => rfl
    | cons first others =>
        rw [trimmed, List.head?_cons, ne_eq, Option.some.injEq] at notOpening
        simp [notOpening]
  rw [table?, noColumns]
  simp [notColon]

theorem group?_eq_none (different : character ≠ '(') : group? (character :: rest) = none := by
  simp [group?, different]

theorem outlineName?_eq_none (different : character ≠ '<') :
    outlineName? (character :: rest) = none := by
  cases rest with
  | nil => rfl
  | cons first others => simp [outlineName?, different]

/-- There is no choice of words where no slash follows the word. -/
theorem alternatives?_eq_none (slashFree : '/' ∉ text.takeWhile isChainCharacter) :
    alternatives? previous text = none := by
  have few : (chainWords text).length ≤ 1 := by
    unfold chainWords
    split
    · rw [List.splitOn_eq_singleton slashFree]
      exact (List.takeWhile_sublist _).length_le
    · simp
  unfold alternatives?
  split
  · rfl
  · simp only
    rw [if_neg (by omega)]

theorem part?_escape (escapable : isEscapable character) :
    part? previous ('\\' :: character :: rest) =
      some ⟨.token ⟨.escape character, ['\\', character]⟩, 2⟩ := by
  simp [part?, escape?, escapable, Found.part, Found.token]

theorem part?_parameter (type : ParameterType) :
    part? previous ('{' :: (type.name ++ '}' :: rest)) =
      some ⟨.token ⟨.parameter type none, '{' :: (type.name ++ ['}'])⟩, type.name.length + 2⟩ := by
  have noEscape : escape? ('{' :: (type.name ++ '}' :: rest)) = none :=
    escape?_eq_none (Or.inl (by decide))
  have noTable : table? ('{' :: (type.name ++ '}' :: rest)) = none := by
    apply table?_eq_none
    · simp [isClosingColon]
    · simp [Text.trimStart, isBlank, CodePoints.contains, CodePoints.whiteSpace]
  have noChoice : enum? ('{' :: (type.name ++ '}' :: rest)) = none := by
    rw [enum?, group?_eq_none (by decide)]
  have found : parameter? ('{' :: (type.name ++ '}' :: rest)) =
      some ⟨.parameter type none, type.name.length + 2⟩ := by
    cases type <;> rfl
  have raw : ('{' :: (type.name ++ '}' :: rest)).take (type.name.length + 2) =
      '{' :: (type.name ++ ['}']) := by
    cases type <;> rfl
  rw [part?, noEscape, noTable, noChoice, found]
  simp only [Option.map_none, Option.map_some, Found.part, Found.token, raw]
  rfl

/-- Nothing is found at a character that opens no construct. -/
theorem part?_eq_none (noEscape : escape? (character :: rest) = none)
    (noTable : table? (character :: rest) = none) (notBrace : character ≠ '{')
    (notGroup : character ≠ '(') (slashFree : '/' ∉ (character :: rest).takeWhile isChainCharacter)
    (noReference : outlineName? (character :: rest) = none) :
    part? previous (character :: rest) = none := by
  have noGroup : group? (character :: rest) = none := group?_eq_none notGroup
  have noParameter : parameter? (character :: rest) = none := by
    simp [parameter?, notBrace]
  have noAnonymous : anonymous? (character :: rest) = none := by
    cases rest with
    | nil => rfl
    | cons second others => simp [anonymous?, notBrace]
  simp [part?, noEscape, noTable, enum?, noGroup, noParameter, noAnonymous, optionalContent?,
    alternatives?_eq_none slashFree, outline?, noReference]

theorem part?_outline {name : Text} (named : outlineName? ('<' :: rest) = some name) :
    part? previous ('<' :: rest) =
      some ⟨.token ⟨.outline name, ('<' :: rest).take (name.length + 2)⟩, name.length + 2⟩ := by
  have noEscape : escape? ('<' :: rest) = none := escape?_eq_none (Or.inl (by decide))
  have noTable : table? ('<' :: rest) = none := by
    apply table?_eq_none
    · simp [isClosingColon]
    · simp [Text.trimStart, isBlank, CodePoints.contains, CodePoints.whiteSpace]
  have slashFree : '/' ∉ ('<' :: rest).takeWhile isChainCharacter := by
    have notChain : isChainCharacter '<' = false := by decide +kernel
    simp [notChain]
  have noGroup : group? ('<' :: rest) = none := group?_eq_none (by decide)
  have noParameter : parameter? ('<' :: rest) = none := rfl
  have noAnonymous : anonymous? ('<' :: rest) = none := by
    cases rest <;> rfl
  simp [part?, noEscape, noTable, enum?, noGroup, noParameter, noAnonymous, optionalContent?,
    alternatives?_eq_none slashFree, outline?, named, Found.part, Found.token]

/-! ## Units by the first character -/

theorem unitsFrom_escape (escapable : isEscapable character) :
    unitsFrom previous ('\\' :: character :: rest) =
      .escape character :: unitsFrom (some character) rest := by
  have found : part? previous ('\\' :: ([character] ++ rest)) =
      some ⟨.token ⟨.escape character, ['\\', character]⟩, [character].length + 1⟩ :=
    part?_escape escapable
  exact unitsFrom_of_found found

theorem unitsFrom_parameter (type : ParameterType) :
    unitsFrom previous ('{' :: (type.name ++ '}' :: rest)) =
      .parameter type none :: unitsFrom (some '}') rest := by
  have found : part? previous ('{' :: ((type.name ++ ['}']) ++ rest)) =
      some ⟨.token ⟨.parameter type none, '{' :: (type.name ++ ['}'])⟩,
        (type.name ++ ['}']).length + 1⟩ := by
    rw [List.append_assoc, List.singleton_append, part?_parameter, List.length_append]
    rfl
  have units := unitsFrom_of_found found
  rw [List.append_assoc, List.singleton_append, List.getLast?_append] at units
  exact units

/-- A reference to a column of an outline is one unit with all that stands in it. -/
theorem unitsFrom_outline {name : Text} (bracketFree : name.all isOutlineCharacter)
    (starts : name.head?.any fun first => !isBlank first) :
    unitsFrom previous ('<' :: (name ++ '>' :: rest)) =
      .outline name :: unitsFrom (some '>') rest := by
  have named : outlineName? ('<' :: ((name ++ ['>']) ++ rest)) = some name :=
    outlineName?_eq_some_iff.2 ⟨rest, rfl, bracketFree, starts⟩
  have found : part? previous ('<' :: ((name ++ ['>']) ++ rest)) =
      some ⟨.token ⟨.outline name, ('<' :: ((name ++ ['>']) ++ rest)).take (name.length + 2)⟩,
        (name ++ ['>']).length + 1⟩ := by
    rw [part?_outline named, List.length_append]
    rfl
  have units := unitsFrom_of_found found
  rw [List.append_assoc, List.singleton_append, List.getLast?_append] at units
  exact units

end StepGrammar
