import StepGrammar.Proofs.Resolve.Allocation

/-!
Contract: the step text of a pattern whose values are told apart by position.

`placed` numbers the pieces that take a value and looks at no type. Only these pieces matter when
values are handed out: what they get is computed on them alone and put in their places afterwards.
With one value for every argument each piece then gets the value at its own ordinal.
-/

namespace StepGrammar

/-- The number of pieces before a position that take a value. -/
def ordinal (pieces : List Piece) (position : Nat) : Nat :=
  (pieces.take position).countP Piece.isCaptured

/-- The step text of pieces of which each that takes a value gets what is listed at its ordinal. -/
def placed (pieces : List Piece) (handed : List (Option Text)) : Text :=
  (pieces.mapIdx fun position piece =>
    piece.resolve (if piece.isCaptured then handed[ordinal pieces position]?.join else none)).flatten

theorem placed_cons_of_isCaptured {piece : Piece} (captured : piece.isCaptured)
    (later : List Piece) (handed : List (Option Text)) :
    placed (piece :: later) handed =
      piece.resolve handed.head?.join ++ placed later handed.tail := by
  have shifted (position : Nat) :
      ordinal (piece :: later) (position + 1) = ordinal later position + 1 := by
    rw [ordinal, List.take_succ_cons, List.countP_cons_of_pos captured, ordinal]
  have rest (position : Nat) :
      handed[ordinal (piece :: later) (position + 1)]? = handed.tail[ordinal later position]? := by
    rw [shifted, List.getElem?_tail]
  have first : handed[ordinal (piece :: later) 0]? = handed.head? := List.head?_eq_getElem?.symm
  simp only [placed, List.mapIdx_cons, List.flatten_cons, captured, if_true, rest, first]

theorem placed_cons_of_not_isCaptured {piece : Piece} (uncaptured : ¬piece.isCaptured)
    (later : List Piece) (handed : List (Option Text)) :
    placed (piece :: later) handed = piece.resolve none ++ placed later handed := by
  have same (position : Nat) :
      ordinal (piece :: later) (position + 1) = ordinal later position := by
    rw [ordinal, List.take_succ_cons, List.countP_cons_of_neg uncaptured, ordinal]
  simp only [placed, List.mapIdx_cons, List.flatten_cons, uncaptured, same, Bool.false_eq_true,
    if_false]

/-- Giving each piece the next value gives it the value at its ordinal. -/
theorem substitute_eq_placed (pieces : List Piece) (values : List Text) :
    substitute pieces values = placed pieces (values.map some) := by
  induction pieces generalizing values with
  | nil => rfl
  | cons piece later inductionHypothesis =>
      rw [substitute]
      by_cases captured : piece.isCaptured
      · rw [if_pos captured, placed_cons_of_isCaptured captured, inductionHypothesis, List.map_tail]
        cases values <;> rfl
      · rw [if_neg captured, placed_cons_of_not_isCaptured captured, inductionHypothesis]

/-! ## Handing out on the pieces that take a value -/

/-- The pieces of a pattern that take a value from the step line. -/
def Pattern.takers (pattern : Pattern) : List Piece := pattern.pieces.filter Piece.isCaptured

/-- What a piece takes depends on the parameters behind it, and each of them takes a value. -/
theorem takes_filter_isCaptured (piece : Piece) (later : List Piece) (values : List ConcreteArg) :
    piece.takes (later.filter Piece.isCaptured) values = piece.takes later values := by
  have parameters (type : ParameterType) :
      (later.filter Piece.isCaptured).countP (Piece.isParameter type) =
        later.countP (Piece.isParameter type) := by
    rw [List.countP_filter]
    apply List.countP_congr
    intro other _
    cases other <;> simp [Piece.isParameter, Piece.isCaptured]
  funext arg
  cases piece with
  | anonymous => simp only [Piece.takes, isSpare, parameters]
  | _ => rfl

theorem resolvePieces_allocate_eq_placed (pieces : List Piece) (values : List ConcreteArg) :
    resolvePieces pieces
        ((allocate pieces values).map fun arg => arg.map fun taken => taken.value) =
      placed pieces
        ((allocate (pieces.filter Piece.isCaptured) values).map fun arg =>
          arg.map fun taken => taken.value) := by
  induction pieces generalizing values with
  | nil => rfl
  | cons piece later inductionHypothesis =>
      by_cases captured : piece.isCaptured
      · rw [List.filter_cons_of_pos captured, placed_cons_of_isCaptured captured, allocate, allocate,
          takes_filter_isCaptured, List.map_cons, List.map_cons, List.tail_cons,
          ← inductionHypothesis]
        rfl
      · rw [List.filter_cons_of_neg captured, placed_cons_of_not_isCaptured captured,
          allocate_of_not_isCaptured captured, ← inductionHypothesis]
        rfl

/-- The text of a pattern has in place what its pieces are handed in their order. -/
theorem resolve_eq_placed (pattern : Pattern) (values : List ConcreteArg) :
    pattern.resolve values =
      placed pattern.pieces
        ((allocate pattern.takers values).map fun arg => arg.map fun taken => taken.value) :=
  resolvePieces_allocate_eq_placed pattern.pieces values

theorem length_takers {pattern : Pattern} (tableFree : endsInTable pattern.tokens = false) :
    pattern.takers.length = pattern.arguments.length := by
  have types := congrArg List.length (map_some_declaredTypes pattern.pieces)
  rw [List.length_map, List.length_map, ← map_type_arguments tableFree, List.length_map] at types
  exact types.symm

/-! ## One value for every argument -/

/-- With one value for every argument of a pattern without table, handing out by type comes to the
same as position: each piece that takes a value gets the one listed at its ordinal. -/
theorem resolve_by_position {pattern : Pattern} {values : List Text}
    (tableFree : endsInTable pattern.tokens = false)
    (sameLength : values.length = pattern.arguments.length) :
    pattern.takers.length = values.length ∧
      pattern.resolve (pattern.argumentsWith values) = placed pattern.pieces (values.map some) := by
  refine ⟨(length_takers tableFree).trans sameLength.symm, ?_⟩
  rw [resolve_argumentsWith tableFree sameLength.symm, substitute_eq_placed]

/-- A pattern in which braces without a type stand before a parameter that takes the same values,
and an argument stands in an optional group. -/
def rentalPattern : Pattern := "^{} lends {any:what} (now|later)( for {int} days) to <who>{}$".toList

def rentalValues : List Text :=
  ["Ann Lee".toList, "boats".toList, "later".toList, "3".toList, "!".toList]

theorem resolve_by_position_rental :
    endsInTable rentalPattern.tokens = false ∧
      rentalValues.length = rentalPattern.arguments.length ∧
      rentalPattern.resolve (rentalPattern.argumentsWith rentalValues) =
        "Ann Lee lends boats later for 3 days to <who>!".toList := by
  have tableFree : endsInTable rentalPattern.tokens = false := by decide +kernel
  have sameLength : rentalValues.length = rentalPattern.arguments.length := by decide +kernel
  refine ⟨tableFree, sameLength, ?_⟩
  rw [(resolve_by_position tableFree sameLength).2]
  decide +kernel

end StepGrammar
