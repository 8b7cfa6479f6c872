import StepGrammar.Proofs.Pattern.Tiling
import StepGrammar.Segment

/-!
Contract: the segments of a pattern divide it.

Segments are put together from the last token to the first, in two ways: an argument becomes a
segment of its own, and text joins a text segment that stands behind it. `IsTiling` says what a
division of a text has to satisfy. Each of the two ways keeps it, provided that the token covers at
least one character.
-/

namespace StepGrammar

/-- What the segments of a text satisfy: they cover it, none is empty, of two neighbours at least
one is an argument, and arguments are what carries a definition. -/
structure IsTiling (text : Text) (segments : List PatternSegment) : Prop where
  covers : segments.flatMap PatternSegment.value = text
  filled : ∀ segment ∈ segments, segment.value ≠ []
  separated : segments.IsChain fun first second => ¬(first.kind = .text ∧ second.kind = .text)
  labelled : ∀ segment ∈ segments, segment.arg.isSome ↔ segment.kind = .arg

namespace IsTiling

variable {text value : Text} {segments : List PatternSegment}

theorem nil : IsTiling [] [] where
  covers := rfl
  filled := by simp
  separated := .nil
  labelled := by simp

theorem ofArg (tiling : IsTiling text segments) (nonempty : value ≠ [])
    (definition : ArgumentDefinition) :
    IsTiling (value ++ text) (.ofArg value definition :: segments) where
  covers := by rw [List.flatMap_cons, tiling.covers]; rfl
  filled := List.forall_mem_cons.2 ⟨nonempty, tiling.filled⟩
  separated := tiling.separated.cons fun next _ => by simp [PatternSegment.ofArg]
  labelled := List.forall_mem_cons.2 ⟨by simp [PatternSegment.ofArg], tiling.labelled⟩

theorem consText (tiling : IsTiling text segments) (nonempty : value ≠ []) :
    IsTiling (value ++ text) (PatternSegment.consText value segments) := by
  have textLabelled (joined : Text) :
      (PatternSegment.ofText joined).arg.isSome ↔ (PatternSegment.ofText joined).kind = .arg := by
    simp [PatternSegment.ofText]
  obtain ⟨covers, filled, separated, labelled⟩ := tiling
  cases segments with
  | nil =>
      obtain rfl : text = [] := covers.symm
      exact {
        covers := rfl
        filled := List.forall_mem_singleton.2 nonempty
        separated := .singleton _
        labelled := List.forall_mem_singleton.2 (textLabelled value) }
  | cons first rest =>
      rw [List.forall_mem_cons] at filled labelled
      rw [PatternSegment.consText]
      by_cases isText : first.kind = .text
      · -- The text and the segment behind it become one, with the same neighbour.
        rw [if_pos isText]
        exact {
          covers := by rw [← covers, List.flatMap_cons, List.flatMap_cons, ← List.append_assoc]; rfl
          filled := List.forall_mem_cons.2
            ⟨List.append_ne_nil_of_left_ne_nil nonempty _, filled.2⟩
          separated := by
            cases rest with
            | nil => exact .singleton _
            | cons second rest =>
                rw [List.isChain_cons_cons] at separated ⊢
                rw [isText] at separated
                exact separated
          labelled := List.forall_mem_cons.2 ⟨textLabelled _, labelled.2⟩ }
      · rw [if_neg isText]
        exact {
          covers := by rw [List.flatMap_cons, covers]; rfl
          filled := List.forall_mem_cons.2 ⟨nonempty, List.forall_mem_cons.2 filled⟩
          separated := separated.cons fun next member => by
            obtain rfl : first = next := Option.some.inj member
            exact fun both => isText both.2
          labelled := List.forall_mem_cons.2 ⟨textLabelled value, List.forall_mem_cons.2 labelled⟩ }

end IsTiling

/-- The segments of tokens divide what the tokens cover. -/
theorem isTiling_segmentsFrom (caller : List ArgumentDefinition) {tokens : List Token}
    (filled : ∀ token ∈ tokens, token.raw ≠ []) (index : Nat) :
    IsTiling (tokens.flatMap Token.raw) (segmentsFrom caller index tokens) := by
  induction tokens generalizing index with
  | nil => exact .nil
  | cons token rest inductionHypothesis =>
      obtain ⟨nonempty, restFilled⟩ := List.forall_mem_cons.1 filled
      rw [List.flatMap_cons, segmentsFrom]
      split
      · exact (inductionHypothesis restFilled index).ofArg nonempty _
      · split
        · exact (inductionHypothesis restFilled (index + 1)).ofArg nonempty _
        · exact (inductionHypothesis restFilled index).consText nonempty

/-- The segments of a pattern divide it, whatever definitions the caller supplies. -/
theorem segments_tile (pattern : Pattern) (caller : List ArgumentDefinition) :
    IsTiling pattern (pattern.segments caller) := by
  have filled : ∀ token ∈ pattern.tokens, token.raw ≠ [] := fun _ => raw_ne_nil_of_mem_tokens
  have tiling (given : List ArgumentDefinition) := isTiling_segmentsFrom given filled 0
  rw [flatMap_raw_tokens] at tiling
  exact tiling _

end StepGrammar
