import StepGrammar.Proofs.Pattern.ArgumentViews
import StepGrammar.Resolve

/-!
Contract: handing out values by type agrees with handing them out by position.

A list with one value for every argument of a pattern gives each piece the value at its own
position. The invariant is that the types of the values left are those that the pieces still to
come declare: the first of them is then always the value that the next piece takes.
-/

namespace StepGrammar

/-- The step text of pieces of which each that takes a value gets the next one. -/
def substitute : List Piece → List Text → Text
  | [], _ => []
  | piece :: later, values =>
    if piece.isCaptured then piece.resolve values.head? ++ substitute later values.tail
    else piece.resolve none ++ substitute later values

/-- The types that the pieces of a step line declare. -/
def declaredTypes (pieces : List Piece) : List ArgType :=
  (pieces.filterMap Piece.inlineDeclaration?).map Declaration.type

def Piece.declaredType? (piece : Piece) : Option ArgType :=
  piece.inlineDeclaration?.map Declaration.type

theorem declaredTypes_cons (piece : Piece) (later : List Piece) :
    declaredTypes (piece :: later) = piece.declaredType?.toList ++ declaredTypes later := by
  rw [declaredTypes, List.filterMap_cons, Piece.declaredType?]
  cases piece.inlineDeclaration? <;> rfl

/-- Every parameter declares its type, and empty braces declare `any`. -/
theorem count_declaredTypes (type : ParameterType) (pieces : List Piece) :
    (declaredTypes pieces).count (.parameter type) =
      pieces.countP (Piece.isParameter type) + if type = .any then pieces.count .anonymous else 0 := by
  induction pieces with
  | nil => simp [declaredTypes]
  | cons piece later inductionHypothesis =>
      rw [declaredTypes_cons, List.count_append, inductionHypothesis, List.countP_cons,
        List.count_cons]
      cases piece with
      | parameter other name =>
          change [ArgType.parameter other].count (.parameter type) + _ = _
          by_cases same : other = type
          · simp [Piece.isParameter, same]
            omega
          · simp [Piece.isParameter, same]
      | anonymous =>
          change [ArgType.parameter .any].count (.parameter type) + _ = _
          by_cases isAny : type = .any
          · simp [Piece.isParameter, isAny]
            omega
          · have different : ParameterType.any ≠ type := Ne.symm isAny
            simp [Piece.isParameter, isAny, different]
      | enum listed =>
          change [ArgType.enum].count (.parameter type) + _ = _
          simp [Piece.isParameter]
      | _ => simp [Piece.declaredType?, Piece.inlineDeclaration?, Piece.isTable, Piece.declaration?,
          Piece.isParameter]

theorem countP_isFor (type : ParameterType) (values : List ConcreteArg) :
    values.countP (ConcreteArg.isFor type) =
      (values.map ConcreteArg.type).count (.parameter type) := by
  rw [List.count, List.countP_map]
  rfl

/-- A piece takes the first of the values left when these are the values of the pieces to come. -/
theorem takes_head {piece : Piece} {later : List Piece} {own : ConcreteArg}
    {rest : List ConcreteArg} (declares : piece.declaredType? = some own.type)
    (aligned : rest.map ConcreteArg.type = declaredTypes later) :
    piece.takes later (own :: rest) own := by
  cases piece with
  | enum values =>
      have isEnum : own.type = .enum := (Option.some.inj declares).symm
      simp [Piece.takes, isEnum]
  | parameter type name =>
      have isType : own.type = .parameter type := (Option.some.inj declares).symm
      simp [Piece.takes, ConcreteArg.isFor, isType]
  | anonymous =>
      -- More values of any type are left than parameters of it follow: the first one is spare.
      have isAny : own.type = .parameter .any := (Option.some.inj declares).symm
      have spare : isSpare later (own :: rest) .any := by
        have enough := count_declaredTypes .any later
        rw [← aligned, ← countP_isFor] at enough
        have ownCounts : ConcreteArg.isFor .any own = true := by simp [ConcreteArg.isFor, isAny]
        simp only [isSpare, List.countP_cons, ownCounts, if_true, decide_eq_true_eq]
        omega
      simp [Piece.takes, ParameterType.all, spare, ConcreteArg.isFor, isAny]
  | _ =>
      simp [Piece.declaredType?, Piece.inlineDeclaration?, Piece.isTable, Piece.declaration?]
        at declares

theorem takes_eq_false {piece : Piece} (uncaptured : ¬piece.isCaptured) (later : List Piece)
    (values : List ConcreteArg) : piece.takes later values = fun _ => false := by
  funext arg
  cases piece <;> simp_all [Piece.isCaptured, Piece.takes]

/-- A piece that takes no value leaves all values to the later pieces. -/
theorem allocate_of_not_isCaptured {piece : Piece} (uncaptured : ¬piece.isCaptured)
    (later : List Piece) (values : List ConcreteArg) :
    allocate (piece :: later) values = none :: allocate later values := by
  have untouched : values.eraseP (fun _ => false) = values :=
    List.eraseP_of_forall_not (by simp)
  have nothing : values.find? (fun _ => false) = none := by simp
  rw [allocate, takes_eq_false uncaptured, untouched, nothing]

theorem declaredType?_isSome (piece : Piece) : piece.declaredType?.isSome = piece.isCaptured := by
  rw [Piece.declaredType?, Option.isSome_map, inlineDeclaration?_isSome]

/-- The declared types are those of the pieces that take a value, in their order. -/
theorem map_some_declaredTypes (pieces : List Piece) :
    (declaredTypes pieces).map some =
      (pieces.filter Piece.isCaptured).map Piece.declaredType? := by
  induction pieces with
  | nil => rfl
  | cons piece later inductionHypothesis =>
      rw [declaredTypes_cons, List.map_append, inductionHypothesis, List.filter_cons,
        ← declaredType?_isSome]
      cases declares : piece.declaredType? with
      | none => rfl
      | some type =>
          rw [Option.isSome_some, if_pos rfl, List.map_cons, declares]
          rfl

/-- Values whose types are the declared ones are handed out by position. -/
theorem resolvePieces_allocate {pieces : List Piece} {values : List ConcreteArg}
    (aligned : values.map ConcreteArg.type = declaredTypes pieces) :
    resolvePieces pieces
        ((allocate pieces values).map fun arg => arg.map fun taken => taken.value) =
      substitute pieces (values.map ConcreteArg.value) := by
  induction pieces generalizing values with
  | nil => rfl
  | cons piece later inductionHypothesis =>
      rw [declaredTypes_cons] at aligned
      have captured := declaredType?_isSome piece
      cases declares : piece.declaredType? with
      | none =>
          rw [declares, Option.isSome_none] at captured
          rw [declares, Option.toList_none, List.nil_append] at aligned
          have rest := inductionHypothesis aligned
          rw [substitute, ← captured, allocate_of_not_isCaptured (by simp [← captured]), ← rest]
          rfl
      | some type =>
          rw [declares, Option.isSome_some] at captured
          rw [declares, Option.toList_some] at aligned
          cases values with
          | nil => simp at aligned
          | cons own others =>
              obtain ⟨rfl, tail⟩ := List.cons_eq_cons.1 aligned
              have takes := takes_head declares tail
              have rest := inductionHypothesis tail
              rw [substitute, ← captured, allocate, List.find?_cons_of_pos takes,
                List.eraseP_cons_of_pos takes, if_pos rfl]
              change piece.resolve (some own.value) ++ resolvePieces later _ =
                piece.resolve (some own.value) ++ substitute later (others.map ConcreteArg.value)
              rw [rest]

theorem map_type_defineFrom (index : Nat) (declarations : List Declaration) :
    (defineFrom index declarations).map ArgumentDefinition.type =
      declarations.map Declaration.type := by
  induction declarations generalizing index with
  | nil => rfl
  | cons declaration rest inductionHypothesis =>
      rw [defineFrom, List.map_cons, inductionHypothesis]
      rfl

/-- The arguments of a pattern without table have the types that its pieces declare. -/
theorem map_type_arguments {pattern : Pattern} (tableFree : endsInTable pattern.tokens = false) :
    pattern.arguments.map ArgumentDefinition.type = declaredTypes pattern.pieces := by
  rw [(arguments_of_not_endsInTable tableFree).1, inlineArguments_eq, map_type_defineFrom,
    declaredTypes, Pattern.pieces, List.filterMap_map]
  rfl

theorem map_value_argumentsWith {pattern : Pattern} {values : List Text}
    (fits : values.length ≤ pattern.arguments.length) :
    (pattern.argumentsWith values).map ConcreteArg.value = values := by
  rw [Pattern.argumentsWith, List.map_zipWith, ← List.map_uncurry_zip_eq_zipWith]
  exact List.map_snd_zip fits

/-- Values for the arguments of a pattern have the types of these arguments, as far as both go. -/
theorem map_type_argumentsWith (pattern : Pattern) (values : List Text) :
    (pattern.argumentsWith values).map ConcreteArg.type =
      (pattern.arguments.map ArgumentDefinition.type).take values.length := by
  rw [Pattern.argumentsWith]
  generalize pattern.arguments = definitions
  induction definitions generalizing values with
  | nil => rw [List.zipWith_nil_left, List.map_nil, List.map_nil, List.take_nil]
  | cons definition rest inductionHypothesis =>
      cases values with
      | nil => rfl
      | cons value others =>
          rw [List.zipWith_cons_cons, List.map_cons, inductionHypothesis]
          rfl

/-- A pattern without table puts one value for each of its arguments in their places. -/
theorem resolve_argumentsWith {pattern : Pattern} {values : List Text}
    (tableFree : endsInTable pattern.tokens = false)
    (sameLength : pattern.arguments.length = values.length) :
    pattern.resolve (pattern.argumentsWith values) = substitute pattern.pieces values := by
  have aligned : (pattern.argumentsWith values).map ConcreteArg.type =
      declaredTypes pattern.pieces := by
    have enough : (pattern.arguments.map ArgumentDefinition.type).length ≤ values.length := by
      rw [List.length_map, sameLength]
    rw [map_type_argumentsWith, List.take_of_length_le enough, map_type_arguments tableFree]
  have resolved := resolvePieces_allocate aligned
  rw [map_value_argumentsWith sameLength.ge] at resolved
  exact resolved

end StepGrammar
