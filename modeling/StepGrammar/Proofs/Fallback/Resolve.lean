import StepGrammar.Proofs.Fallback.Units

/-!
Contract: the text that a made-up pattern gives with its own values.

A value is written back as it stood in the text. The only exception is an outline reference in
double quotes: references are written without quotes, so it loses the quotes around it.
-/

namespace StepGrammar

variable {text : Text} {spans : List (Span (LooseValue × Text))}

/-- Whether a value in its stretch is an outline reference between double quotes. -/
def isQuotedReference (found : LooseValue × Text) : Bool :=
  isOutlineReference found.1.value && found.2 == '"' :: (found.1.value ++ ['"'])

/-- The text that is written back for a span of a step text. -/
def Span.resolved : Span (LooseValue × Text) → Text
  | .plain literal => literal
  | .construct found => if isQuotedReference found then found.1.value else found.2

/-! ## What is written back -/

/-- A value is written as it was read unless it is a reference in quotes. -/
theorem written_of_isReadFrom {value : LooseValue} {raw behind : Text}
    (reads : value.IsReadFrom raw behind) :
    value.type.written value.value = (Span.construct (value, raw)).resolved := by
  rw [Span.resolved]
  cases reads with
  | @quoted content _ free =>
      by_cases outline : isOutlineReference content
      · simp [ParameterType.written, isQuotedReference, outline]
      · simp [ParameterType.written, isQuotedReference, outline, quote, free]
  | reference outline => simp [ParameterType.written, outline]
  | integer => exact (ite_self _).symm
  | decimal => exact (ite_self _).symm

theorem substitute_spans (each : EachConstruct LooseValue.IsReadFrom spans) :
    substitute ((spans.map (Span.map Prod.fst)).flatMap Span.units)
        ((looseValues (spans.map (Span.map Prod.fst))).map LooseValue.value) =
      spans.flatMap Span.resolved := by
  induction spans with
  | nil => rfl
  | cons span rest inductionHypothesis =>
      cases span with
      | plain literal =>
          rw [List.map_cons, Span.map, List.flatMap_cons, Span.units, substitute_escape,
            List.flatMap_cons, ← inductionHypothesis each]
          rfl
      | construct found =>
          have written := written_of_isReadFrom each.1
          exact congrArg₂ (· ++ ·) written (inductionHypothesis each.2)

/-- Every reference in quotes leaves its two quotes out, and nothing else is left out. -/
theorem length_covered (spans : List (Span (LooseValue × Text))) :
    (spans.flatMap (Span.covered Prod.snd)).length =
      (spans.flatMap Span.resolved).length + 2 * (rawValues spans).countP isQuotedReference := by
  induction spans with
  | nil => rfl
  | cons span rest inductionHypothesis =>
      rw [List.flatMap_cons, List.length_append, inductionHypothesis, List.flatMap_cons,
        List.length_append]
      cases span with
      | plain literal => exact (Nat.add_assoc _ _ _).symm
      | construct found =>
          have others : rawValues (.construct found :: rest) = found :: rawValues rest := rfl
          rw [others, List.countP_cons, Span.covered, Span.resolved]
          by_cases quotes : isQuotedReference found
          · have written : found.2 = '"' :: (found.1.value ++ ['"']) := by
              simpa using (Bool.and_eq_true_iff.1 quotes).2
            have longer : found.2.length = found.1.value.length + 2 := by rw [written]; simp
            rw [if_pos quotes, if_pos quotes, longer]
            omega
          · rw [if_neg quotes, if_neg quotes]
            omega

theorem flatMap_resolved_eq_iff (spans : List (Span (LooseValue × Text))) :
    spans.flatMap Span.resolved = spans.flatMap (Span.covered Prod.snd) ↔
      ∀ found ∈ rawValues spans, ¬isQuotedReference found := by
  constructor
  · intro same
    have lengths := length_covered spans
    rw [same] at lengths
    exact List.countP_eq_zero.1 (by omega)
  · intro unquoted
    apply List.flatMap_congr
    intro span member
    cases span with
    | plain literal => rfl
    | construct found => exact if_neg (unquoted found (mem_rawValues_iff.2 member))

/-! ## The pattern of a text -/

theorem map_type_args (text : Text) :
    (fallbackMatch text).args.map ConcreteArg.type =
      (valueDeclarations (scan looseValue? text)).map Declaration.type := by
  rw [← map_type_defineFrom 0, ← map_definition_args, List.map_map]
  rfl

/-- The pattern made up from a text without backslash gives with its own values the text back, only
that references lose the double quotes around them, when no plain stretch takes the braces of a
value away. -/
theorem resolve_fallback (backslashFree : '\\' ∉ text)
    (keeps : keepsValues (scan looseValue? text)) :
    (fallbackMatch text).pattern.resolve (fallbackMatch text).args =
        (rawSpans text).flatMap Span.resolved ∧
      ((fallbackMatch text).pattern.resolve (fallbackMatch text).args = text ↔
        ∀ found ∈ rawValues (rawSpans text), ¬isQuotedReference found) := by
  have units := units_fallbackMatch backslashFree keeps
  have aligned : (fallbackMatch text).args.map ConcreteArg.type =
      declaredTypes (fallbackMatch text).pattern.units := by
    rw [map_type_args, declaredTypes, units, filterMap_inlineDeclaration?_spans]
  have resolved : (fallbackMatch text).pattern.resolve (fallbackMatch text).args =
      (rawSpans text).flatMap Span.resolved := by
    rw [resolve_eq_substitute_units aligned, units, map_value_args, ← map_fst_rawSpans]
    exact substitute_spans (eachConstruct_rawSpans text)
  refine ⟨resolved, ?_⟩
  rw [resolved, ← flatMap_resolved_eq_iff, flatMap_covered_rawSpans]

/-- An order with references in quotes, in quotes with other text, and bare. -/
def orderText : Text := "order \"<item>\" with \"<colour> lid\", 12 {for} \"<a b>\" <c d>:".toList

theorem resolve_fallback_order :
    (fallbackMatch orderText).pattern.resolve (fallbackMatch orderText).args =
      "order <item> with \"<colour> lid\", 12 {for} <a b> <c d>:".toList :=
  (resolve_fallback (by decide +kernel) (by decide +kernel)).1.trans (by decide +kernel)

/-- A reference in quotes is not given back with its quotes. -/
theorem resolve_fallback_drops_quotes :
    '\\' ∉ "\"<row>\"".toList ∧
      (fallbackMatch "\"<row>\"".toList).pattern.resolve (fallbackMatch "\"<row>\"".toList).args ≠
        "\"<row>\"".toList := by
  decide +kernel

end StepGrammar
