import StepGrammar.Proofs.Pattern.UnitViews
import StepGrammar.Proofs.Resolve.Acceptance

/-!
Contract: which values the pattern of a single string gives back.

A value is written between quotes that it does not hold itself, where there are such. A value that
holds quotes of both kinds is written between double quotes all the same, and then only as a bare
text is it accepted. So the values that are given back are those of `ParameterType.Admits`, and for
every other value the written text is not even matched.
-/

namespace StepGrammar

open Regex

/-! ## Written strings -/

instance (value : Text) : Decidable (ParameterType.string.Admits value) :=
  inferInstanceAs (Decidable ((_ ∨ _ ∨ _) ∧ (_ → _)))

theorem not_isQuoted_of_head {quote first : Char} {text : Text} (different : first ≠ quote) :
    ¬IsQuoted quote (first :: text) :=
  not_isQuoted_of_ne different (List.append_nil _).symm

/-- A string is accepted as it is written exactly where it is given back as well. -/
theorem accepts_written_string_iff {value : Text} :
    ParameterType.string.Accepts (ParameterType.string.written value) ↔
      ParameterType.string.Admits value := by
  refine ⟨fun accepts => ?_, accepts_written⟩
  by_cases outline : isOutlineReference value
  · rw [written_string_of_outline outline] at accepts
    have free : Text.isBlankFree value := by
      obtain ⟨name, rfl⟩ := exists_of_isOutlineReference outline
      rcases accepts with double | single | bare
      · exact absurd double (not_isQuoted_of_head (by decide))
      · exact absurd single (not_isQuoted_of_head (by decide))
      · exact isBlankFree_of_isBare bare
    exact ⟨Or.inr (Or.inr free), fun _ => free⟩
  · refine ⟨?_, fun isOutline => absurd isOutline outline⟩
    by_cases double : '"' ∈ value
    · by_cases single : '\x27' ∈ value
      · -- Neither kind of quotes closes behind the value, so it was accepted as a bare text.
        rw [written_string_of_not_outline outline, quote, if_neg (by simp [single])] at accepts
        rcases accepts with ⟨content, same, free⟩ | singleQuoted | bare
        · obtain rfl : value = content := by simpa using same
          exact absurd double free
        · exact absurd singleQuoted (not_isQuoted_of_head (by decide))
        · have free := isBlankFree_of_isBare bare
          rw [← List.singleton_append, Text.isBlankFree_append, Text.isBlankFree_append,
            Bool.and_eq_true, Bool.and_eq_true] at free
          exact Or.inr (Or.inr free.1.2)
      · exact Or.inr (Or.inl single)
    · exact Or.inl double

/-! ## The pattern of a single string -/

def stringPattern : Pattern := "{string}".toList

theorem units_stringPattern : stringPattern.units = [.parameter .string none] := by
  decide +kernel

theorem resolve_stringPattern {arg : ConcreteArg} (isString : arg.type = .parameter .string) :
    stringPattern.resolve [arg] = ParameterType.string.written arg.value := by
  rw [resolve_eq_substitute_units, units_stringPattern]
  · exact List.append_nil _
  · rw [units_stringPattern]
    simp [isString, declaredTypes, Piece.inlineDeclaration?, Piece.isTable, Piece.declaration?]

theorem isDeterminate_stringPattern : ∀ unit ∈ stringPattern.units, unit.isDeterminate := by
  rw [units_stringPattern]
  exact List.forall_mem_singleton.2 rfl

theorem arguments_stringPattern :
    stringPattern.arguments = [{ name := positionalName 0, type := .parameter .string }] := by
  rw [arguments_eq_units isDeterminate_stringPattern, units_stringPattern]
  rfl

theorem expression_stringPattern :
    stringPattern.expression = append (.capture ParameterType.string.expression) .empty := by
  rw [expression_eq_units isDeterminate_stringPattern, units_stringPattern]
  rfl

theorem fullMatch?_stringPattern (value : Text) :
    stringPattern.expression.fullMatch? (ParameterType.string.written value) =
      if ParameterType.string.Admits value then some [some (ParameterType.string.written value)]
      else none := by
  rw [expression_stringPattern]
  split_ifs with admits
  · exact fullMatch?_written_string admits
  · rw [← Option.not_isSome_iff_eq_none, fullMatch?_isSome_iff]
    rintro ⟨front, back, split, accepted, rfl⟩
    rw [List.append_nil] at split
    rw [← split] at accepted
    exact admits (accepts_written_string_iff.1 (describes_typeExpression.1 accepted))

/-- Writing a string into its pattern and matching the text gives the string back where
`ParameterType.Admits` holds of it, and where it does not, the text is not matched. -/
theorem match_resolve_string {arg : ConcreteArg} (isString : arg.type = .parameter .string)
    (id : Text) (keyword : StepKeyword) :
    (matchStep? (stringPattern.resolve [arg]) (.ofPattern id stringPattern keyword)).map
        MatchResult.values =
      if ParameterType.string.Admits arg.value then some [arg.value] else none := by
  have accepted : stringPattern.compile ≠ .error (.tooLarge sizeLimit) := by
    rw [compile_eq, if_pos (by decide +kernel)]
    simp
  have matched := fullMatch?_stringPattern arg.value
  rw [resolve_stringPattern isString]
  split_ifs at matched ⊢ with admits
  · have captured : stringPattern.expression.fullMatch? (ParameterType.string.written arg.value) =
        some ([ParameterType.string.written arg.value].map some) := matched
    rw [matchStep?_ofPattern id keyword accepted captured, arguments_stringPattern]
    show some [unquote (ParameterType.string.written arg.value)] = some [arg.value]
    rw [unquote_written]
  · simp only [matchStep?, StepDefinition.ofPattern, compile_eq_ok accepted,
      captures?_eq_fullMatch?, matched, Option.map_none]

/-- A value with blanks and quotes of one kind. -/
def discArg : ConcreteArg := .typed (.parameter .string) "a 12\" disc".toList

theorem match_resolve_string_disc :
    (matchStep? (stringPattern.resolve [discArg])
        (.ofPattern "buy".toList stringPattern .whenStep)).map MatchResult.values =
      some ["a 12\" disc".toList] :=
  (match_resolve_string (Eq.refl discArg.type) _ _).trans (if_pos (by decide))

/-- A value with blanks and quotes of both kinds. -/
def mixedArg : ConcreteArg := .typed (.parameter .string) "say \"it's\"".toList

theorem match_loses_mixed_quotes :
    ¬isOutlineReference mixedArg.value ∧
      (matchStep? (stringPattern.resolve [mixedArg])
        (.ofPattern "say".toList stringPattern .whenStep)).map MatchResult.values ≠
          some [mixedArg.value] := by
  refine ⟨by decide, ?_⟩
  decide +kernel

end StepGrammar
