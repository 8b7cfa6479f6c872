import StepGrammar.Proofs.Fallback.Arguments
import StepGrammar.Proofs.Fallback.Values
import StepGrammar.Proofs.Pattern.UnitViews

/-!
Contract: the units of the pattern made up from a step text.

Where no backslash stands in the plain stretches and no stretch takes braces away, the lexer undoes
the escaping: the pattern has one unit for each plain character of the text and one parameter for
each value.
-/

namespace StepGrammar

def Span.units : Span LooseValue → List Piece
  | .plain literal => literal.map .escape
  | .construct found => [.parameter found.type none]

section Scanned

variable {rest : List (Span LooseValue)} {character : Char} {literal : Text}

/-- A literal character is a unit of its own, written with an escape or without. -/
theorem unitsFrom_literal (scanned : IsScanned (.plain (character :: literal) :: rest))
    (keeps : ¬TakesBraces character literal rest) (notBackslash : character ≠ '\\')
    (previous : Option Char) (opens : Bool) :
    unitsFrom previous (patternOfSpans opens (.plain (character :: literal) :: rest)) =
      .escape character ::
        unitsFrom (some character) (patternOfSpans false (.plain literal :: rest)) := by
  by_cases escaped : isEscaped opens rest.isEmpty character literal
  · rw [patternOfSpans_escaped escaped]
    exact unitsFrom_escape (isEscapable_of_isEscaped escaped)
  · rw [patternOfSpans_kept escaped]
    apply unitsFrom_of_none
    exact part?_kept scanned escaped (escape?_eq_none (Or.inl notBackslash))
      (outlineName?_eq_none_of_not_takesBraces scanned keeps) previous

theorem unitsFrom_plain (scanned : IsScanned (.plain literal :: rest))
    (keeps : keepsValues (.plain literal :: rest)) (backslashFree : '\\' ∉ literal)
    (previous : Option Char) (opens : Bool) :
    ∃ before,
      unitsFrom previous (patternOfSpans opens (.plain literal :: rest)) =
        literal.map .escape ++ unitsFrom before (patternOfSpans false rest) := by
  induction literal generalizing previous opens with
  | nil => exact ⟨previous, rfl⟩
  | cons character literal inductionHypothesis =>
      have keepsBraces : ¬TakesBraces character literal rest := by
        intro takes
        rw [keepsValues_of_takesBraces takes] at keeps
        exact Bool.false_ne_true keeps
      have notBackslash : character ≠ '\\' := fun same => backslashFree (by simp [same])
      have laterScanned := scanned.of_plain_suffix (List.suffix_cons character literal)
      rw [keepsValues_literal keepsBraces] at keeps
      obtain ⟨before, later⟩ := inductionHypothesis laterScanned keeps
        (fun member => backslashFree (by simp [member])) (some character) false
      exact ⟨before, by rw [unitsFrom_literal scanned keepsBraces notBackslash, later]; rfl⟩

end Scanned

/-- The pattern made up from scanned spans is read back as these spans. -/
theorem unitsFrom_patternOfSpans {spans : List (Span LooseValue)} (scanned : IsScanned spans)
    (keeps : keepsValues spans)
    (backslashFree : ∀ literal, .plain literal ∈ spans → '\\' ∉ literal)
    (previous : Option Char) (opens : Bool) :
    unitsFrom previous (patternOfSpans opens spans) = spans.flatMap Span.units := by
  induction spans generalizing previous opens with
  | nil => rfl
  | cons span rest inductionHypothesis =>
      have restFree : ∀ literal, .plain literal ∈ rest → '\\' ∉ literal := fun literal member =>
        backslashFree literal (List.mem_cons_of_mem _ member)
      cases span with
      | construct found =>
          have written : patternOfSpans opens (.construct found :: rest) =
              '{' :: (found.type.name ++ '}' :: patternOfSpans false rest) := rfl
          rw [written, unitsFrom_parameter, inductionHypothesis scanned.tail keeps restFree]
          rfl
      | plain literal =>
          have literalFree := backslashFree literal List.mem_cons_self
          obtain ⟨before, read⟩ := unitsFrom_plain scanned keeps literalFree previous opens
          rw [keepsValues, Bool.and_eq_true] at keeps
          rw [read, inductionHypothesis scanned.tail keeps.2 restFree]
          rfl

/-! ## The pattern of a text -/

variable {text : Text}

theorem covered_subset {span : Span (LooseValue × Text)} (member : span ∈ rawSpans text) :
    span.covered Prod.snd ⊆ text := by
  intro character inside
  rw [← flatMap_covered_rawSpans text]
  exact List.mem_flatMap.2 ⟨span, member, inside⟩

theorem literal_subset {literal : Text} (member : .plain literal ∈ scan looseValue? text) :
    literal ⊆ text := by
  rw [← map_fst_rawSpans] at member
  obtain ⟨span, spanMember, same⟩ := List.mem_map.1 member
  cases span with
  | plain other =>
      obtain rfl := Span.plain.inj same
      exact covered_subset spanMember
  | construct found => simp [Span.map] at same

theorem opensReference_eq_false {literal : Text} (bracketFree : '<' ∉ literal) :
    opensReference literal = false := by
  induction literal with
  | nil => rfl
  | cons character rest inductionHypothesis =>
      have different : character ≠ '<' := fun same => bracketFree (by simp [same])
      have restFree : '<' ∉ rest := fun member => bracketFree (by simp [member])
      rw [opensReference, inductionHypothesis restFree]
      simp [different]

theorem keepsValues_of_not_mem {spans : List (Span LooseValue)}
    (backslashFree : ∀ literal, .plain literal ∈ spans → '\\' ∉ literal)
    (bracketFree : ∀ literal, .plain literal ∈ spans → '<' ∉ literal) : keepsValues spans := by
  induction spans with
  | nil => rfl
  | cons span rest inductionHypothesis =>
      have keeps := inductionHypothesis
        (fun literal member => backslashFree literal (List.mem_cons_of_mem _ member))
        (fun literal member => bracketFree literal (List.mem_cons_of_mem _ member))
      cases span with
      | construct found => exact keeps
      | plain literal =>
          have notBackslash : literal.getLast? ≠ some '\\' := fun last =>
            backslashFree literal List.mem_cons_self (List.mem_of_getLast? last)
          rw [keepsValues, keeps, opensReference_eq_false (bracketFree literal List.mem_cons_self)]
          simp [notBackslash]

theorem keepsValues_scan (backslashFree : '\\' ∉ text) (bracketFree : '<' ∉ text) :
    keepsValues (scan looseValue? text) := by
  apply keepsValues_of_not_mem
  · exact fun literal member inside => backslashFree (literal_subset member inside)
  · exact fun literal member inside => bracketFree (literal_subset member inside)

theorem literal_ne_nil {literal : Text} (member : .plain literal ∈ scan looseValue? text) :
    literal ≠ [] := by
  have all : ∀ span ∈ scan looseValue? text, span ≠ .plain [] :=
    forall_mem_scanFrom (by simp) (by simp) none 0 text
  exact fun empty => all _ member (by rw [empty])

theorem units_fallbackMatch (backslashFree : '\\' ∉ text)
    (keeps : keepsValues (scan looseValue? text)) :
    (fallbackMatch text).pattern.units = (scan looseValue? text).flatMap Span.units := by
  have filled : ∀ literal, .plain literal ∈ scan looseValue? text → literal ≠ [] := fun _ =>
    literal_ne_nil
  have literalFree : ∀ literal, .plain literal ∈ scan looseValue? text → '\\' ∉ literal :=
    fun literal member inside => backslashFree (literal_subset member inside)
  rw [Pattern.units, Pattern.pieces, fallbackMatch, scannedTokens_patternOfSpans filled,
    List.flatMap_map]
  exact unitsFrom_patternOfSpans (isScanned_scan text) keeps literalFree none true

theorem isDeterminate_of_mem_units {spans : List (Span LooseValue)} {unit : Piece}
    (member : unit ∈ spans.flatMap Span.units) : unit.isDeterminate := by
  obtain ⟨span, -, inSpan⟩ := List.mem_flatMap.1 member
  cases span with
  | plain literal =>
      obtain ⟨character, -, rfl⟩ := List.mem_map.1 inSpan
      rfl
  | construct found =>
      obtain rfl := List.mem_singleton.1 inSpan
      rfl

theorem filterMap_inlineDeclaration?_spans (spans : List (Span LooseValue)) :
    (spans.flatMap Span.units).filterMap Piece.inlineDeclaration? = valueDeclarations spans := by
  induction spans with
  | nil => rfl
  | cons span rest inductionHypothesis =>
      rw [List.flatMap_cons, List.filterMap_append, inductionHypothesis]
      cases span with
      | plain literal =>
          have silent : (literal.map Piece.escape).filterMap Piece.inlineDeclaration? = [] := by
            simp [Piece.inlineDeclaration?, Piece.isTable, Piece.declaration?]
          rw [Span.units, silent]
          rfl
      | construct found => rfl

section Kept

variable (backslashFree : '\\' ∉ text) (keeps : keepsValues (scan looseValue? text))

include backslashFree keeps

theorem isDeterminate_fallbackMatch :
    ∀ unit ∈ (fallbackMatch text).pattern.units, unit.isDeterminate := by
  rw [units_fallbackMatch backslashFree keeps]
  exact fun unit => isDeterminate_of_mem_units

theorem arguments_fallbackMatch :
    (fallbackMatch text).pattern.arguments =
      defineFrom 0 (valueDeclarations (scan looseValue? text)) := by
  rw [arguments_eq_units (isDeterminate_fallbackMatch backslashFree keeps),
    units_fallbackMatch backslashFree keeps, filterMap_inlineDeclaration?_spans]

end Kept

theorem map_value_args (text : Text) :
    (fallbackMatch text).args.map ConcreteArg.value =
      (looseValues (scan looseValue? text)).map LooseValue.value := by
  rw [fallbackMatch]
  apply List.ext_getElem?
  intro position
  rw [List.getElem?_map, List.getElem?_mapIdx, List.getElem?_map]
  cases (looseValues (scan looseValue? text))[position]? <;> rfl

/-- The arguments that are made up with a pattern are values for its declarations in order. -/
theorem args_fallbackMatch (text : Text) :
    (fallbackMatch text).args =
      List.zipWith ConcreteArg.mk (defineFrom 0 (valueDeclarations (scan looseValue? text)))
        ((looseValues (scan looseValue? text)).map LooseValue.value) := by
  rw [← map_value_args, ← map_definition_args, List.zipWith_map, List.zipWith_self]
  exact (List.map_id _).symm

end StepGrammar
