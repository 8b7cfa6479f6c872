import StepGrammar.Proofs.Text.Scan

/-!
Contract: constructs together with the stretches of text that they cover.

A scan forgets how a construct was written. `Recogniser.withRaw` keeps the stretch beside the
value, so the spans cover the text also where different stretches give the same value.
`EachConstruct` relates every construct to its stretch and to the text behind it.
-/

namespace StepGrammar

variable {α : Type}

def Span.map {β : Type} (change : α → β) : Span α → Span β
  | .plain text => .plain text
  | .construct value => .construct (change value)

/-- The recogniser that keeps the stretch that a construct covers. -/
def Recogniser.withRaw (recognise : Recogniser α) : Recogniser (α × Text) := fun previous text =>
  (recognise previous text).map fun found => ⟨(found.value, text.take found.length), found.length⟩

/-- Whether a condition holds of each construct, its stretch and the text behind it. -/
def EachConstruct (P : α → Text → Text → Prop) : List (Span (α × Text)) → Prop
  | [] => True
  | .plain _ :: rest => EachConstruct P rest
  | .construct (value, raw) :: rest =>
    P value raw (rest.flatMap (Span.covered Prod.snd)) ∧ EachConstruct P rest

theorem Span.map_cons {β : Type} (change : α → β) (character : Char) (spans : List (Span α)) :
    (Span.cons character spans).map (Span.map change) =
      Span.cons character (spans.map (Span.map change)) := by
  cases spans with
  | nil => rfl
  | cons first rest => cases first <;> rfl

theorem map_fst_scanFrom_withRaw (recognise : Recogniser α) (previous : Option Char)
    (covered : Nat) (text : Text) :
    (scanFrom recognise.withRaw previous covered text).map (Span.map Prod.fst) =
      scanFrom recognise previous covered text := by
  induction text generalizing previous covered with
  | nil => cases covered <;> rfl
  | cons character rest inductionHypothesis =>
      cases covered with
      | succ covered => exact inductionHypothesis _ _
      | zero =>
          rw [scanFrom, scanFrom, Recogniser.withRaw]
          cases recognise previous (character :: rest) with
          | none =>
              rw [← inductionHypothesis]
              exact Span.map_cons _ _ _
          | some found =>
              exact congrArg (Span.construct found.value :: ·) (inductionHypothesis _ _)

theorem map_fst_scan_withRaw (recognise : Recogniser α) (text : Text) :
    (scan recognise.withRaw text).map (Span.map Prod.fst) = scan recognise text :=
  map_fst_scanFrom_withRaw recognise none 0 text

section Positive

variable {recognise : Recogniser α}

theorem covers_withRaw
    (positive : ∀ previous text found, recognise previous text = some found → 0 < found.length) :
    recognise.withRaw.Covers Prod.snd := by
  intro previous text found recognised
  obtain ⟨inner, innerFound, rfl⟩ := Option.map_eq_some_iff.1 recognised
  exact ⟨positive _ _ _ innerFound, rfl⟩

theorem eachConstruct_cons {P : α → Text → Text → Prop} (character : Char)
    {spans : List (Span (α × Text))} (each : EachConstruct P spans) :
    EachConstruct P (Span.cons character spans) := by
  cases spans with
  | nil => trivial
  | cons first rest => cases first <;> exact each

/-- What a recogniser ensures about the text at which it was asked holds of every construct. -/
theorem eachConstruct_scanFrom {P : α → Text → Text → Prop}
    (positive : ∀ previous text found, recognise previous text = some found → 0 < found.length)
    (ensures : ∀ previous text found, recognise previous text = some found →
      P found.value (text.take found.length) (text.drop found.length))
    (previous : Option Char) (covered : Nat) (text : Text) :
    EachConstruct P (scanFrom recognise.withRaw previous covered text) := by
  induction text generalizing previous covered with
  | nil => cases covered <;> trivial
  | cons character rest inductionHypothesis =>
      cases covered with
      | succ covered => exact inductionHypothesis _ _
      | zero =>
          rw [scanFrom]
          split
          · rename_i found recognised
            obtain ⟨inner, innerFound, rfl⟩ := Option.map_eq_some_iff.1 recognised
            obtain ⟨length, lengthEq⟩ : ∃ length, inner.length = length + 1 :=
              ⟨inner.length - 1, by have := positive _ _ _ innerFound; omega⟩
            have holds := ensures _ _ _ innerFound
            refine ⟨?_, inductionHypothesis _ _⟩
            rw [flatMap_covered_scanFrom (covers_withRaw positive)]
            simpa [lengthEq] using holds
          · exact eachConstruct_cons character (inductionHypothesis _ _)

end Positive

end StepGrammar
