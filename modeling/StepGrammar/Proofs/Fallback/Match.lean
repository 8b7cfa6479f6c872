import StepGrammar.Proofs.Fallback.Units

/-!
Contract: the pattern made up from a step text matches that text.

The pattern is read back as the spans of the text, so the text is matched span by span. A value is
accepted by the parameter that replaced it unless it is an outline reference with a blank. Where
there are no references at all, every parameter captures exactly its own value.
-/

namespace StepGrammar

open Regex

variable {text : Text} {value : LooseValue} {raw behind : Text}

/-! ## One value -/

/-- A value that is no reference with a blank is accepted by the parameter that replaces it. -/
theorem accepts_of_isReadFrom (reads : value.IsReadFrom raw behind)
    (bare : isOutlineReference raw → Text.isBlankFree raw) : value.type.Accepts raw := by
  have nonempty := raw_ne_nil reads
  cases reads with
  | quoted free => exact Or.inl ⟨_, rfl, free⟩
  | reference outline => exact Or.inr (Or.inr (isBare_of_isBlankFree nonempty (bare outline)))
  | integer _ digits => exact ⟨[], raw, rfl, Or.inl rfl, nonempty, digits⟩
  | @decimal whole places _ _ wholeDigits placesNonempty placesDigits =>
      exact ⟨[], whole, ['.'], places, rfl, Or.inl rfl, wholeDigits, Or.inr rfl, placesNonempty,
        placesDigits⟩

theorem isDigit_head?_of_not_startsWord (ends : ¬startsWord behind) :
    ∀ character ∈ behind.head?, isDigit character = false := by
  intro character head
  cases behind with
  | nil => simp at head
  | cons first rest =>
      obtain rfl : first = character := by simpa using head
      rw [startsWord, isWord] at ends
      simp only [Bool.or_eq_true, not_or, Bool.not_eq_true] at ends
      exact ends.1.1.2

theorem head?_ne_minus {digits : Text} (nonempty : digits ≠ [])
    (all : ∀ character ∈ digits, isDigit character) (rest : Text) :
    (digits ++ rest).head? ≠ some '-' := by
  cases digits with
  | nil => exact absurd rfl nonempty
  | cons first others =>
      intro same
      obtain rfl : first = '-' := by simpa using same
      exact absurd (all '-' List.mem_cons_self) (by decide)

/-- A number is first read up to the last of its digits. -/
theorem parses_integer (nonempty : raw ≠ []) (digits : ∀ character ∈ raw, isDigit character)
    (ends : ¬startsWord behind) :
    ∃ others, ParameterType.int.expression.parses (raw ++ behind) = ([], behind) :: others := by
  have unsigned := head?_ne_minus nonempty digits behind
  apply parses_append_first ⟨[], parses_option_of_ne unsigned⟩
  apply parses_append_first _ ⟨[], rfl⟩
  exact parses_plus_append nonempty digits (isDigit_head?_of_not_startsWord ends)

theorem parses_decimal {whole places : Text} (wholeNonempty : whole ≠ [])
    (wholeDigits : ∀ character ∈ whole, isDigit character) (placesNonempty : places ≠ [])
    (placesDigits : ∀ character ∈ places, isDigit character) (ends : ¬startsWord behind) :
    ∃ others, ParameterType.float.expression.parses ((whole ++ '.' :: places) ++ behind) =
      ([], behind) :: others := by
  rw [List.append_assoc]
  have unsigned := head?_ne_minus wholeNonempty wholeDigits ('.' :: (places ++ behind))
  have pointStops : ∀ character ∈ ('.' :: (places ++ behind)).head?,
      CharClass.digit.accepts character = false := by
    intro character head
    obtain rfl : '.' = character := by simpa using head
    decide
  apply parses_append_first ⟨[], parses_option_of_ne unsigned⟩
  apply parses_append_first (parses_star_append wholeDigits pointStops)
  apply parses_append_first ⟨_, parses_option_of_eq '.' _⟩
  apply parses_append_first _ ⟨[], rfl⟩
  exact parses_plus_append placesNonempty placesDigits (isDigit_head?_of_not_startsWord ends)

/-- A value that is no reference is captured as it is written. -/
theorem fullMatch?_of_isReadFrom (reads : value.IsReadFrom raw behind)
    (notReference : ¬isOutlineReference raw) {next : Regex} {later : Captures}
    (matched : next.fullMatch? behind = some later) :
    (append (.capture value.type.expression) next).fullMatch? (raw ++ behind) =
      some (some raw :: later) := by
  cases reads with
  | quoted free => exact fullMatch?_string_of_quoted (Or.inl rfl) free matched
  | reference outline => exact absurd outline notReference
  | integer nonempty digits ends =>
      obtain ⟨others, preferred⟩ := parses_integer nonempty digits ends
      exact fullMatch?_capture_of_preferred preferred matched
  | @decimal whole places _ wholeNonempty wholeDigits placesNonempty placesDigits ends =>
      obtain ⟨others, preferred⟩ :=
        parses_decimal wholeNonempty wholeDigits placesNonempty placesDigits ends
      exact fullMatch?_capture_of_preferred preferred matched

theorem readCapture_of_isReadFrom (reads : value.IsReadFrom raw behind)
    (notReference : ¬isOutlineReference raw) :
    (ArgType.parameter value.type).readCapture raw = value.value := by
  cases reads with
  | @quoted content _ free =>
      have stripped := stripQuote?_quoted '"' content
      simp [ArgType.readCapture, unquote, stripped]
  | reference outline => exact absurd outline notReference
  | integer => rfl
  | decimal => rfl

/-! ## All values -/

def spanItems : List (Span (LooseValue × Text)) → List Regex
  | [] => []
  | .plain literal :: rest => literalItems literal ++ spanItems rest
  | .construct (value, _) :: rest => .capture value.type.expression :: spanItems rest

variable {spans : List (Span (LooseValue × Text))}

theorem flatMap_items_spans (spans : List (Span (LooseValue × Text))) :
    ((spans.map (Span.map Prod.fst)).flatMap Span.units).flatMap Piece.items = spanItems spans := by
  induction spans with
  | nil => rfl
  | cons span rest inductionHypothesis =>
      rw [List.map_cons, List.flatMap_cons, List.flatMap_append, inductionHypothesis]
      cases span with
      | plain literal => rw [Span.map, Span.units, flatMap_items_escape, spanItems]
      | construct found => rfl

theorem describes_spanItems (each : EachConstruct LooseValue.IsReadFrom spans)
    (bare : ∀ found ∈ rawValues spans, isOutlineReference found.2 → Text.isBlankFree found.2) :
    (ofSequence (spanItems spans)).Describes (spans.flatMap (Span.covered Prod.snd)) := by
  induction spans with
  | nil => rfl
  | cons span rest inductionHypothesis =>
      cases span with
      | plain literal => exact describes_literalItems.2 ⟨_, rfl, inductionHypothesis each bare⟩
      | construct found =>
          obtain ⟨firstBare, restBare⟩ := List.forall_mem_cons.1 bare
          have accepts := accepts_of_isReadFrom each.1 firstBare
          exact ⟨found.2, _, rfl, describes_typeExpression.2 accepts,
            inductionHypothesis each.2 restBare⟩

/-- The preferred match of the items of the spans captures the stretches of the values. -/
theorem fullMatch?_spanItems (each : EachConstruct LooseValue.IsReadFrom spans)
    (referenceFree : ∀ found ∈ rawValues spans, ¬isOutlineReference found.2) :
    (ofSequence (spanItems spans)).fullMatch? (spans.flatMap (Span.covered Prod.snd)) =
      some (((rawValues spans).map Prod.snd).map some) := by
  -- A value is captured with what stands behind it, so the list is read from its end.
  induction spans with
  | nil => rfl
  | cons span rest inductionHypothesis =>
      cases span with
      | plain literal =>
          rw [spanItems, List.flatMap_cons, Span.covered, fullMatch?_literalItems,
            inductionHypothesis each referenceFree]
          rfl
      | construct found =>
          obtain ⟨notReference, restFree⟩ := List.forall_mem_cons.1 referenceFree
          exact fullMatch?_of_isReadFrom each.1 notReference (inductionHypothesis each.2 restFree)

theorem bindCaptures_rawValues (each : EachConstruct LooseValue.IsReadFrom spans)
    (referenceFree : ∀ found ∈ rawValues spans, ¬isOutlineReference found.2) (index : Nat) :
    bindCaptures (defineFrom index (valueDeclarations (spans.map (Span.map Prod.fst))))
        ((rawValues spans).map Prod.snd) =
      List.zipWith ConcreteArg.mk
        (defineFrom index (valueDeclarations (spans.map (Span.map Prod.fst))))
        ((looseValues (spans.map (Span.map Prod.fst))).map LooseValue.value) := by
  induction spans generalizing index with
  | nil => rfl
  | cons span rest inductionHypothesis =>
      cases span with
      | plain literal => exact inductionHypothesis each referenceFree index
      | construct found =>
          obtain ⟨notReference, restFree⟩ := List.forall_mem_cons.1 referenceFree
          have read := readCapture_of_isReadFrom each.1 notReference
          have later := inductionHypothesis each.2 restFree (index + 1)
          exact congrArg₂ (fun value others => ConcreteArg.mk _ value :: others) read later

/-! ## The pattern of a text -/

theorem expression_fallbackMatch (backslashFree : '\\' ∉ text)
    (keeps : keepsValues (scan looseValue? text)) :
    (fallbackMatch text).pattern.expression = ofSequence (spanItems (rawSpans text)) := by
  rw [expression_eq_units (isDeterminate_fallbackMatch backslashFree keeps),
    units_fallbackMatch backslashFree keeps, ← map_fst_rawSpans, flatMap_items_spans]

/-- The pattern made up from a text without backslash compiles and matches the text, when no plain
stretch takes the braces of a value away and no outline reference holds a blank. -/
theorem fallback_accepts_text (backslashFree : '\\' ∉ text)
    (keeps : keepsValues (scan looseValue? text))
    (bare : ∀ found ∈ rawValues (rawSpans text),
      isOutlineReference found.2 → Text.isBlankFree found.2)
    (accepted : (fallbackMatch text).pattern.compile ≠ .error (.tooLarge sizeLimit)) :
    ∃ expression, (fallbackMatch text).pattern.compile = .ok expression ∧
      expression.accepts text := by
  refine ⟨_, compile_eq_ok accepted, ?_⟩
  have described := describes_spanItems (eachConstruct_rawSpans text) bare
  rw [flatMap_covered_rawSpans] at described
  rw [accepts_iff_describes, expression_fallbackMatch backslashFree keeps]
  exact described

/-- A payment with a value of each kind and with characters that are escaped. -/
def paymentText : Text := "^pay (12) of 3.50/<unit> to \"<an account>, 7\" :".toList

theorem fallback_accepts_payment :
    ∃ expression, (fallbackMatch paymentText).pattern.compile = .ok expression ∧
      expression.accepts paymentText := by
  have bare : ∀ found ∈ rawValues (rawSpans paymentText),
      isOutlineReference found.2 → Text.isBlankFree found.2 := by decide +kernel
  apply fallback_accepts_text (by decide +kernel) (by decide +kernel) bare
  rw [compile_eq, if_pos (by decide +kernel)]
  simp

/-- An outline reference with a blank is not matched by the parameter that replaces it. -/
theorem fallback_rejects_reference :
    '\\' ∉ "<a b>".toList ∧ ∃ expression,
      (fallbackMatch "<a b>".toList).pattern.compile = .ok expression ∧
        ¬expression.accepts "<a b>".toList := by
  refine ⟨by decide, _, compile_eq_ok ?_, by decide +kernel⟩
  rw [compile_eq, if_pos (by decide +kernel)]
  simp

/-- A definition with the pattern made up from a text takes from the text the values that were made
up with it, when the text holds neither a backslash nor an opening angle bracket. -/
theorem match_fallback (id : Text) (keyword : StepKeyword) (backslashFree : '\\' ∉ text)
    (bracketFree : '<' ∉ text)
    (accepted : (fallbackMatch text).pattern.compile ≠ .error (.tooLarge sizeLimit)) :
    ∃ result,
      matchStep? text (.ofPattern id (fallbackMatch text).pattern keyword) = some result ∧
      result.args = (fallbackMatch text).args := by
  have keeps := keepsValues_scan backslashFree bracketFree
  have referenceFree : ∀ found ∈ rawValues (rawSpans text), ¬isOutlineReference found.2 := by
    intro found member outline
    obtain ⟨name, written⟩ := exists_of_isOutlineReference outline
    have inside : '<' ∈ found.2 := by simp [written, outlineReference]
    exact bracketFree (covered_subset (mem_rawValues_iff.1 member) inside)
  have each := eachConstruct_rawSpans text
  have matched := fullMatch?_spanItems each referenceFree
  have bound := bindCaptures_rawValues each referenceFree 0
  have defined := arguments_fallbackMatch backslashFree keeps
  rw [flatMap_covered_rawSpans, ← expression_fallbackMatch backslashFree keeps] at matched
  rw [map_fst_rawSpans, ← defined] at bound
  refine ⟨_, matchStep?_ofPattern id keyword accepted matched, ?_⟩
  rw [bound, defined, args_fallbackMatch]

/-- A payment without references. -/
def invoiceText : Text := "^pay (12) of 3.50/unit to \"account 7\" :".toList

theorem match_fallback_invoice :
    ∃ result,
      matchStep? invoiceText (.ofPattern [] (fallbackMatch invoiceText).pattern .whenStep) =
        some result ∧
      result.args = (fallbackMatch invoiceText).args ∧
      (fallbackMatch invoiceText).pattern =
        "\\^pay \\({int}\\) of {float}\\/unit to {string} \\:".toList ∧
      result.values = ["12".toList, "3.50".toList, "account 7".toList] := by
  have accepted :
      (fallbackMatch invoiceText).pattern.compile ≠ .error (.tooLarge sizeLimit) := by
    rw [compile_eq, if_pos (by decide +kernel)]
    simp
  obtain ⟨result, matched, args⟩ :=
    match_fallback [] .whenStep (by decide) (by decide) accepted
  refine ⟨result, matched, args, by decide +kernel, ?_⟩
  rw [MatchResult.values, args]
  decide +kernel

end StepGrammar
