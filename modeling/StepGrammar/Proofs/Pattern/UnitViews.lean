import StepGrammar.Proofs.Pattern.Units
import StepGrammar.Proofs.Resolve.RoundTrip

/-!
Contract: what a pattern declares, matches and resolves to depends on its units only.

Two patterns may cut their literal text into tokens in different ways. Their views are equal when
their units are, so a proof about a pattern needs no more than its units.
-/

namespace StepGrammar

open Regex

def Pattern.units (pattern : Pattern) : List Piece := pattern.pieces.flatMap Piece.units

theorem flatMap_items_escape (literal : Text) :
    (literal.map Piece.escape).flatMap Piece.items = literalItems literal := by
  induction literal with
  | nil => rfl
  | cons character rest inductionHypothesis =>
      rw [List.map_cons, List.flatMap_cons, inductionHypothesis]
      rfl

theorem flatMap_items_units (piece : Piece) : piece.units.flatMap Piece.items = piece.items := by
  cases piece with
  | text characters => exact flatMap_items_escape characters
  | _ => exact List.append_nil _

theorem filterMap_inlineDeclaration?_units (piece : Piece) :
    piece.units.filterMap Piece.inlineDeclaration? = piece.inlineDeclaration?.toList := by
  cases piece with
  | text characters =>
      simp [Piece.units, Piece.inlineDeclaration?, Piece.isTable, Piece.declaration?]
  | _ => rfl

theorem isDeterminate_of_units {piece : Piece}
    (determinate : ∀ unit ∈ piece.units, unit.isDeterminate) : piece.isDeterminate := by
  cases piece with
  | text characters => rfl
  | _ => exact determinate _ List.mem_cons_self

theorem substitute_escape (literal : Text) (later : List Piece) (values : List Text) :
    substitute (literal.map .escape ++ later) values = literal ++ substitute later values := by
  induction literal with
  | nil => rfl
  | cons character rest inductionHypothesis =>
      rw [List.cons_append, ← inductionHypothesis]
      rfl

theorem substitute_units (pieces : List Piece) (values : List Text) :
    substitute (pieces.flatMap Piece.units) values = substitute pieces values := by
  induction pieces generalizing values with
  | nil => rfl
  | cons piece later inductionHypothesis =>
      rw [List.flatMap_cons]
      cases piece with
      | text characters =>
          rw [Piece.units, substitute_escape, inductionHypothesis]
          rfl
      | _ => simp [Piece.units, substitute, inductionHypothesis]

variable {pattern : Pattern}

theorem isDeterminate_of_mem_pieces (determinate : ∀ unit ∈ pattern.units, unit.isDeterminate)
    {piece : Piece} (member : piece ∈ pattern.pieces) : piece.isDeterminate :=
  isDeterminate_of_units fun unit unitMember =>
    determinate unit (List.mem_flatMap.2 ⟨piece, member, unitMember⟩)

theorem declarations_eq_units (pattern : Pattern) :
    pattern.pieces.filterMap Piece.inlineDeclaration? =
      pattern.units.filterMap Piece.inlineDeclaration? := by
  rw [Pattern.units, List.filterMap_flatMap, List.filterMap_eq_flatMap_toList]
  simp only [filterMap_inlineDeclaration?_units]

/-- A pattern without groups and chains of words matches by the items of its units. -/
theorem expression_eq_units (determinate : ∀ unit ∈ pattern.units, unit.isDeterminate) :
    pattern.expression = ofSequence (pattern.units.flatMap Piece.items) := by
  have ungrouped : .optionalOpen ∉ pattern.pieces := fun member =>
    absurd (isDeterminate_of_mem_pieces determinate member) Bool.false_ne_true
  rw [expression_eq_items ungrouped, Pattern.units, List.flatMap_assoc]
  simp only [flatMap_items_units]

theorem arguments_eq_units (determinate : ∀ unit ∈ pattern.units, unit.isDeterminate) :
    pattern.arguments = defineFrom 0 (pattern.units.filterMap Piece.inlineDeclaration?) := by
  have tableFree := not_endsInTable_of_determinate fun _ =>
    isDeterminate_of_mem_pieces determinate
  rw [arguments_eq_defineFrom tableFree, declarations_eq_units]

/-- Values of the declared types are put into the units in their order. -/
theorem resolve_eq_substitute_units {values : List ConcreteArg}
    (aligned : values.map ConcreteArg.type = declaredTypes pattern.units) :
    pattern.resolve values = substitute pattern.units (values.map ConcreteArg.value) := by
  rw [declaredTypes, ← declarations_eq_units] at aligned
  rw [Pattern.units, substitute_units]
  exact resolvePieces_allocate aligned

/-- A definition takes its values from what the groups of its pattern hold. -/
theorem matchStep?_ofPattern {text : Text} {captured : List Text} (id : Text)
    (keyword : StepKeyword) (accepted : pattern.compile ≠ .error (.tooLarge sizeLimit))
    (matched : pattern.expression.fullMatch? text = some (captured.map some)) :
    matchStep? text (.ofPattern id pattern keyword) =
      some ⟨pattern, bindCaptures pattern.arguments captured, some id⟩ := by
  simp only [matchStep?, StepDefinition.ofPattern, compile_eq_ok accepted, captures?_eq_fullMatch?,
    matched, Option.map_some, map_getD_map_some]

end StepGrammar
