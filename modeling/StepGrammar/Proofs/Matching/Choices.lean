import StepGrammar.Proofs.Matching.Reading
import StepGrammar.Proofs.Pattern.Escaping
import StepGrammar.Proofs.Pattern.Tables
import StepGrammar.Proofs.Pattern.UnitViews

/-!
Contract: a choice written with escapes accepts its values and nothing else.

The escapes keep every character of a value from the group scan and the trimming, and dropping them
gives the values back. The pattern is then one token, so what it matches is read from that token.
-/

namespace StepGrammar

/-- Whether texts can be written as the values of a choice. -/
structure IsChoice (values : List Text) : Prop where
  several : 2 ≤ values.length
  filled : ∀ value ∈ values, value ≠ []
  trimmed : ∀ value ∈ values, Text.isTrimmed value
  barFree : ∀ value ∈ values, '|' ∉ value
  closes : ∀ value ∈ values.getLast?, value.getLast? ≠ some '\\'

def choicePattern (values : List Text) : Pattern := parenthesised (choiceContent values)

def choiceArgument (values : List Text) (index : Nat) : ArgumentDefinition where
  name := positionalName index
  type := .enum
  enumValues := some values

/-! ## The token of a choice -/

section Tokens

variable {content : Text} {values : List Text}

theorem table?_parenthesised : table? (parenthesised content) = none := by
  apply table?_eq_none_of_not_endsInColon
  intro ends
  obtain ⟨front, trailing, split, trails, -⟩ := endsInColon_iff.1 ends
  have last := getLast?_parenthesised content
  rw [split] at last
  exact getLast?_ne_of_trailing trails (by decide) (by decide) last

/-- A group with a bar that holds a value is one part, the choice. -/
theorem part?_parenthesised (escaped : escapesParentheses none content) (listed : '|' ∈ content)
    (filled : enumValues content ≠ []) (previous : Option Char) :
    part? previous (parenthesised content) =
      some ⟨.token ⟨.enum (enumValues content), parenthesised content⟩,
        (parenthesised content).length⟩ := by
  have noEscape : escape? (parenthesised content) = none :=
    escape?_eq_none (Or.inl (by decide))
  have grouped : group? (parenthesised content) = some content :=
    group?_eq_some_iff.2 ⟨[], (List.append_nil _).symm, escaped⟩
  have chosen : enum? (parenthesised content) =
      some ⟨.enum (enumValues content), (parenthesised content).length⟩ := by
    rw [length_parenthesised]
    simp [enum?, grouped, listed, filled]
  simp [part?, noEscape, table?_parenthesised, chosen, Found.part, Found.token]

/-- A choice is the only token of its pattern. -/
theorem tokens_parenthesised (escaped : escapesParentheses none content) (listed : '|' ∈ content)
    (filled : enumValues content ≠ []) :
    Pattern.tokens (parenthesised content) =
      [⟨.enum (enumValues content), parenthesised content⟩] := by
  have noDollar : (parenthesised content).getLast? ≠ some '$' := by
    rw [getLast?_parenthesised]
    decide
  have noCaret : (parenthesised content).head? ≠ some '^' := by simp [parenthesised]
  have anchored : Anchored.ofPattern (parenthesised content) = ⟨[], parenthesised content, []⟩ := by
    rw [ofPattern_of_head?_ne noCaret, ofRest_of_getLast?_ne noDollar]
  have scanned : scan part? (parenthesised content) =
      [.construct (.token ⟨.enum (enumValues content), parenthesised content⟩)] := by
    have recognised : part? ([] : Text).getLast? (parenthesised content ++ []) =
        some ⟨.token ⟨.enum (enumValues content), parenthesised content⟩,
          (parenthesised content).length⟩ := by
      rw [List.append_nil]
      exact part?_parenthesised escaped listed filled _
    have first := scanFrom_found (List.cons_ne_nil _ _) recognised rfl
    rwa [List.append_nil] at first
  rw [Pattern.tokens, Pattern.parts, anchored, bodyParts, scanned]
  rfl

theorem bar_mem_choiceContent (several : 2 ≤ values.length) : '|' ∈ choiceContent values := by
  match values, several with
  | first :: second :: rest, _ =>
      simp [choiceContent, Text.join_cons]

variable (choice : IsChoice values)
include choice

theorem IsChoice.nonempty : values ≠ [] := by
  rintro rfl
  exact absurd choice.several (by decide)

theorem IsChoice.tokens_choicePattern :
    (choicePattern values).tokens = [⟨.enum values, choicePattern values⟩] := by
  have listed := enumValues_choiceContent choice.nonempty choice.filled choice.trimmed
    choice.barFree
  have escaped := escapesParentheses_choiceContent choice.nonempty choice.filled choice.closes none
  have filled : enumValues (choiceContent values) ≠ [] := by
    rw [listed]
    exact choice.nonempty
  rw [choicePattern, tokens_parenthesised escaped (bar_mem_choiceContent choice.several) filled,
    listed]

theorem IsChoice.arguments_choicePattern :
    (choicePattern values).arguments = [choiceArgument values 0] := by
  rw [Pattern.arguments, choice.tokens_choicePattern]
  rfl

/-! ## The texts of a choice -/

theorem IsChoice.pieces_choicePattern : (choicePattern values).pieces = [.enum values] := by
  rw [Pattern.pieces, choice.tokens_choicePattern]
  rfl

theorem IsChoice.accepts_iff {text : Text} :
    (choicePattern values).expression.accepts text ↔ text ∈ values := by
  rw [Regex.accepts_iff_describes, describes_expression, choice.pieces_choicePattern,
    spelled_cons_iff Piece.noConfusion]
  simp [spelled_nil_iff, Piece.Spells]

/-- A value is captured as a whole, and no other text is matched. -/
theorem IsChoice.captures?_choicePattern (text : Text) :
    (choicePattern values).expression.captures? text =
      if text ∈ values then some [some text] else none := by
  split
  · rename_i listed
    obtain ⟨captures, found⟩ := Option.isSome_iff_exists.1 (choice.accepts_iff.2 listed)
    obtain ⟨reading, isReading, pieces, rfl, rfl⟩ := exists_reading_of_captures? found
    rw [choice.pieces_choicePattern] at pieces
    cases isReading with
    | nil => contradiction
    | @piece piece stretch slots =>
        -- The only piece has the only stretch, which is then the text.
        rw [List.map_cons, List.cons.injEq, List.map_eq_nil_iff] at pieces
        obtain ⟨rfl, rfl⟩ := pieces
        have whole : readingText [(.enum values, some stretch)] = stretch := List.append_nil stretch
        rw [found, whole]
        rfl
    | taken => simp at pieces
    | skipped => simp at pieces
  · rename_i unlisted
    rw [← Option.not_isSome_iff_eq_none]
    exact mt choice.accepts_iff.1 unlisted

end Tokens

/-- A choice with escaped values declares exactly these values, and it matches exactly these texts,
each with the text as the value of the argument. -/
theorem choice_matches_values {values : List Text} (choice : IsChoice values) :
    (choicePattern values).arguments = [choiceArgument values 0] ∧
      ((choicePattern values).compile ≠ .error (.tooLarge Regex.sizeLimit) →
        ∀ (id : Text) (keyword : StepKeyword) (text : Text),
          matchStep? text (.ofPattern id (choicePattern values) keyword) =
            if text ∈ values then
              some ⟨choicePattern values, [⟨choiceArgument values 0, text⟩], some id⟩
            else none) := by
  refine ⟨choice.arguments_choicePattern, fun accepted id keyword text => ?_⟩
  have compiled := compile_eq_ok accepted
  simp only [matchStep?, StepDefinition.ofPattern, compiled, choice.captures?_choicePattern,
    choice.arguments_choicePattern]
  split <;> rfl

/-- Values with delimiters of every kind, backslashes and a common front part. -/
def markedValues : List Text :=
  ["a\\".toList, "a\\)".toList, "(a/b):".toList, "\x7bint\x7d".toList, "^$, a".toList]

theorem choice_matches_values_marked :
    IsChoice markedValues ∧
      (choicePattern markedValues).compile ≠ .error (.tooLarge Regex.sizeLimit) ∧
      matchStep? "a\\)".toList (.ofPattern [] (choicePattern markedValues) .whenStep) =
        some ⟨choicePattern markedValues, [⟨choiceArgument markedValues 0, "a\\)".toList⟩],
          some []⟩ ∧
      matchStep? "a".toList (.ofPattern [] (choicePattern markedValues) .whenStep) = none := by
  have choice : IsChoice markedValues := by
    constructor <;> decide +kernel
  have accepted : (choicePattern markedValues).compile ≠ .error (.tooLarge Regex.sizeLimit) := by
    rw [compile_eq, if_pos (by decide +kernel)]
    simp
  have matched := (choice_matches_values choice).2 accepted [] .whenStep
  exact ⟨choice, accepted, (matched _).trans (if_pos (by decide +kernel)),
    (matched _).trans (if_neg (by decide +kernel))⟩

end StepGrammar
