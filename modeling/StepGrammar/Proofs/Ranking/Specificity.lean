import StepGrammar.Proofs.Ranking.Order
import StepGrammar.Proofs.Resolve.Allocation

/-!
Contract: the more specific of two definitions is chosen.

The score of a definition is read off its arguments, and a table at the end of a pattern is its
only argument. Where two patterns differ in one construct of the step line, the scores therefore
differ by the weights of the two constructs when no table stands at the end, and not at all
otherwise: the construct is then no argument, and the order of the definitions decides.
-/

namespace StepGrammar

/-! ## The leading definition is chosen -/

variable {text : Text} {keyword : StepKeyword}

/-- A definition that matches is chosen when those before it score less and those behind it score
no more. -/
theorem bestMatch_of_leading (front back : List StepDefinition) {definition : StepDefinition}
    {result : MatchResult} (accepted : keyword.accepts definition.keyword)
    (matched : matchStep? text definition = some result)
    (earlier : ∀ other ∈ front, specificity other.args < specificity definition.args)
    (later : ∀ other ∈ back, specificity other.args ≤ specificity definition.args) :
    bestMatch text keyword (front ++ definition :: back) = result := by
  have entries := map_entry_placedRanking text keyword (front ++ definition :: back).zipIdx
  rw [List.zipIdx_map_fst] at entries
  obtain ⟨complete, -, ordered⟩ :=
    isRanking_placedRanking text keyword (front ++ definition :: back)
  have own : (⟨front.length, ⟨specificity definition.args, result⟩⟩ : PlacedMatch) ∈
      placedRanking text keyword (front ++ definition :: back).zipIdx :=
    (complete _).2 ⟨definition, by simp, accepted, matched, rfl⟩
  rw [bestMatch_eq, ← entries]
  cases ranking : placedRanking text keyword (front ++ definition :: back).zipIdx with
  | nil => simp [ranking] at own
  | cons first rest =>
      rw [ranking] at own ordered
      rcases List.mem_cons.1 own with rfl | inRest
      · rfl
      · -- A match ranked before it would have a definition that scores more or stands earlier.
        obtain ⟨other, found, -, -, score⟩ :=
          (complete first).1 (by rw [ranking]; exact List.mem_cons_self)
        have precedes := (List.pairwise_cons.1 ordered).1 _ inRest
        simp only [PlacedMatch.Precedes, score] at precedes
        rcases Nat.lt_or_ge first.position front.length with before | behind
        · rw [List.getElem?_append_left before] at found
          have less := earlier other (List.mem_of_getElem? found)
          omega
        · rw [List.getElem?_append_right behind] at found
          have notMore : specificity other.args ≤ specificity definition.args := by
            rcases List.mem_cons.1 (List.mem_of_getElem? found) with rfl | inBack
            · exact le_rfl
            · exact later other inBack
          omega

/-! ## The scores of patterns that differ in one construct -/

def typesWeight : List ArgType → Nat
  | [] => 0
  | type :: rest => type.weight + typesWeight rest

theorem typesWeight_append (front back : List ArgType) :
    typesWeight (front ++ back) = typesWeight front + typesWeight back := by
  induction front with
  | nil => exact (Nat.zero_add _).symm
  | cons type rest inductionHypothesis =>
      rw [List.cons_append, typesWeight, typesWeight, inductionHypothesis, Nat.add_assoc]

theorem totalWeight_eq_typesWeight (args : List ArgumentDefinition) :
    totalWeight args = typesWeight (args.map ArgumentDefinition.type) := by
  induction args with
  | nil => rfl
  | cons arg rest inductionHypothesis =>
      rw [totalWeight, inductionHypothesis, List.map_cons, typesWeight]

theorem declaredTypes_append (front back : List Piece) :
    declaredTypes (front ++ back) = declaredTypes front ++ declaredTypes back := by
  rw [declaredTypes, List.filterMap_append, List.map_append, declaredTypes, declaredTypes]

/-- A construct of the step line adds its own weight to that of the pieces around it. -/
theorem totalWeight_arguments {pattern : Pattern} {front back : List Piece} {piece : Piece}
    {type : ArgType} (tableFree : endsInTable pattern.tokens = false)
    (pieces : pattern.pieces = front ++ piece :: back)
    (declares : piece.declaredType? = some type) :
    totalWeight pattern.arguments =
      typesWeight (declaredTypes front) + (type.weight + typesWeight (declaredTypes back)) := by
  rw [totalWeight_eq_typesWeight, map_type_arguments tableFree, pieces, declaredTypes_append,
    declaredTypes_cons, declares, typesWeight_append]
  rfl

/-- A pattern that ends in a table scores what the table weighs, whatever stands before it. -/
theorem specificity_of_endsInTable {pattern : Pattern} (ends : endsInTable pattern.tokens) :
    specificity pattern.arguments = ArgType.table.weight := by
  obtain ⟨columns, -, alone, -⟩ := arguments_of_endsInTable ends
  rw [alone]
  rfl

def lastInnerPiece? (pieces : List Piece) : Option Piece :=
  (pieces.filter fun piece => piece != .anchor).getLast?

theorem endsInTable_eq (pattern : Pattern) :
    endsInTable pattern.tokens = (lastInnerPiece? pattern.pieces).any Piece.isTable := by
  rw [endsInTable, lastInnerPiece?, Pattern.pieces, List.filter_map, List.getLast?_map,
    Option.any_map]
  rfl

/-- A construct of the step line stands before every table. -/
theorem endsInTable_of_pieces {pattern : Pattern} {front back : List Piece} {piece : Piece}
    (pieces : pattern.pieces = front ++ piece :: back) (captured : piece.isCaptured) :
    endsInTable pattern.tokens = (lastInnerPiece? back).any Piece.isTable := by
  have inner : (piece != .anchor) = true := by
    cases piece with
    | anchor => exact absurd captured Bool.false_ne_true
    | _ => rfl
  have notTable : piece.isTable = false := by
    cases piece with
    | table => exact absurd captured Bool.false_ne_true
    | _ => rfl
  rw [endsInTable_eq, pieces, lastInnerPiece?, lastInnerPiece?, List.filter_append,
    List.filter_cons, if_pos inner, List.getLast?_append, List.getLast?_cons, Option.some_or,
    Option.any_some]
  cases (back.filter fun other => other != .anchor).getLast? with
  | none => exact notTable
  | some last => rfl

/-- A heavier construct in the same place scores more. -/
theorem specificity_lt_of_weight_lt {heavy light : Pattern} {front back : List Piece}
    {heavyPiece lightPiece : Piece} {heavyType lightType : ArgType}
    (heavyPieces : heavy.pieces = front ++ heavyPiece :: back)
    (lightPieces : light.pieces = front ++ lightPiece :: back)
    (heavyDeclares : heavyPiece.declaredType? = some heavyType)
    (lightDeclares : lightPiece.declaredType? = some lightType)
    (heavier : lightType.weight < heavyType.weight)
    (heavyTableFree : endsInTable heavy.tokens = false)
    (lightTableFree : endsInTable light.tokens = false)
    (unsaturated : totalWeight light.arguments < maximalScore) :
    specificity light.arguments < specificity heavy.arguments := by
  have heavyWeight := totalWeight_arguments heavyTableFree heavyPieces heavyDeclares
  have lightWeight := totalWeight_arguments lightTableFree lightPieces lightDeclares
  unfold specificity
  split <;> split <;> omega

/-! ## Choices and strings -/

/-- A choice is preferred to a string in its place, in either order of the definitions. Only where
the patterns end in a table, which is then the argument of both, the first definition is chosen. -/
theorem enum_preferred_to_string {enumPattern stringPattern : Pattern} {front back : List Piece}
    {listed : List Text} {name : Option Text}
    (enumPieces : enumPattern.pieces = front ++ .enum listed :: back)
    (stringPieces : stringPattern.pieces = front ++ .parameter .string name :: back)
    (unsaturated : totalWeight stringPattern.arguments < maximalScore)
    {enumId stringId : Text} {enumKeyword stringKeyword : StepKeyword}
    (enumAccepted : keyword.accepts enumKeyword) (stringAccepted : keyword.accepts stringKeyword)
    {enumResult stringResult : MatchResult}
    (enumMatched : matchStep? text (.ofPattern enumId enumPattern enumKeyword) = some enumResult)
    (stringMatched : matchStep? text (.ofPattern stringId stringPattern stringKeyword) =
      some stringResult) :
    bestMatch text keyword
        [.ofPattern enumId enumPattern enumKeyword,
          .ofPattern stringId stringPattern stringKeyword] = enumResult ∧
      bestMatch text keyword
          [.ofPattern stringId stringPattern stringKeyword,
            .ofPattern enumId enumPattern enumKeyword] =
        if endsInTable stringPattern.tokens then stringResult else enumResult := by
  have sameEnd : endsInTable enumPattern.tokens = endsInTable stringPattern.tokens := by
    rw [endsInTable_of_pieces enumPieces rfl, endsInTable_of_pieces stringPieces rfl]
  by_cases ends : endsInTable stringPattern.tokens
  · have sameScore :
        specificity enumPattern.arguments = specificity stringPattern.arguments := by
      rw [specificity_of_endsInTable ends, specificity_of_endsInTable (sameEnd.trans ends)]
    rw [if_pos ends]
    constructor
    · apply bestMatch_of_leading [] [_] enumAccepted enumMatched (by simp)
      exact List.forall_mem_singleton.2 sameScore.ge
    · apply bestMatch_of_leading [] [_] stringAccepted stringMatched (by simp)
      exact List.forall_mem_singleton.2 sameScore.le
  · have tableFree := eq_false_of_ne_true ends
    have heavier : (ArgType.parameter .string).weight < ArgType.enum.weight := by decide
    have higher : specificity stringPattern.arguments < specificity enumPattern.arguments :=
      specificity_lt_of_weight_lt enumPieces stringPieces rfl rfl heavier
        (sameEnd.trans tableFree) tableFree unsaturated
    rw [if_neg ends]
    constructor
    · apply bestMatch_of_leading [] [_] enumAccepted enumMatched (by simp)
      exact List.forall_mem_singleton.2 higher.le
    · apply bestMatch_of_leading [_] [] enumAccepted enumMatched _ (by simp)
      exact List.forall_mem_singleton.2 higher

def colourDefinition : StepDefinition :=
  .ofPattern "colour".toList "^{int} (red|blue) pens( for {word})$".toList .givenStep

def kindDefinition : StepDefinition :=
  .ofPattern "kind".toList "^{int} {string} pens( for {word})$".toList .givenStep

theorem colour_preferred_to_kind :
    ∃ result, matchStep? "7 red pens for Ann".toList colourDefinition = some result ∧
      bestMatch "7 red pens for Ann".toList .givenStep [colourDefinition, kindDefinition] =
        result ∧
      bestMatch "7 red pens for Ann".toList .givenStep [kindDefinition, colourDefinition] =
        result := by
  have colourMatches : (matchStep? "7 red pens for Ann".toList colourDefinition).isSome := by
    decide +kernel
  have kindMatches : (matchStep? "7 red pens for Ann".toList kindDefinition).isSome := by
    decide +kernel
  obtain ⟨colourResult, colourMatched⟩ := Option.isSome_iff_exists.1 colourMatches
  obtain ⟨kindResult, kindMatched⟩ := Option.isSome_iff_exists.1 kindMatches
  have colourPieces : colourDefinition.pattern.pieces =
      [.anchor, .parameter .int none, .text [' ']] ++ .enum ["red".toList, "blue".toList] ::
        [.text " pens".toList, .optionalOpen, .text " for ".toList, .parameter .word none,
          .optionalClose, .anchor] := by decide +kernel
  have kindPieces : kindDefinition.pattern.pieces =
      [.anchor, .parameter .int none, .text [' ']] ++ .parameter .string none ::
        [.text " pens".toList, .optionalOpen, .text " for ".toList, .parameter .word none,
          .optionalClose, .anchor] := by decide +kernel
  have tableFree : endsInTable kindDefinition.pattern.tokens = false := by decide +kernel
  have accepted : StepKeyword.givenStep.accepts .givenStep := rfl
  obtain ⟨first, second⟩ := enum_preferred_to_string colourPieces kindPieces (by decide +kernel)
    accepted accepted colourMatched kindMatched
  rw [if_neg (by simp [tableFree])] at second
  exact ⟨colourResult, colourMatched, first, second⟩

def ownersDefinition : StepDefinition :=
  .ofPattern "owners".toList "(Ann|Bob) owns (name, price):".toList .givenStep

def anybodyDefinition : StepDefinition :=
  .ofPattern "anybody".toList "{string} owns (name, price):".toList .givenStep

/-- Before a table a string that was defined first is chosen instead of a choice. -/
theorem string_preferred_before_table :
    ∃ back ownersResult anybodyResult,
      ownersDefinition.pattern.pieces = .enum ["Ann".toList, "Bob".toList] :: back ∧
      anybodyDefinition.pattern.pieces = .parameter .string none :: back ∧
      totalWeight ownersDefinition.args < maximalScore ∧
      totalWeight anybodyDefinition.args < maximalScore ∧
      StepKeyword.givenStep.accepts ownersDefinition.keyword ∧
      StepKeyword.givenStep.accepts anybodyDefinition.keyword ∧
      matchStep? "Ann owns:".toList ownersDefinition = some ownersResult ∧
      matchStep? "Ann owns:".toList anybodyDefinition = some anybodyResult ∧
      bestMatch "Ann owns:".toList .givenStep [anybodyDefinition, ownersDefinition] =
        anybodyResult ∧
      anybodyResult ≠ ownersResult := by
  let entry : ConcreteArg :=
    ⟨{ name := "arg0".toList, type := .table,
       tableColumns := some ["name".toList, "price".toList] }, []⟩
  let ownersResult : MatchResult := ⟨ownersDefinition.pattern, [entry], some "owners".toList⟩
  let anybodyResult : MatchResult := ⟨anybodyDefinition.pattern, [entry], some "anybody".toList⟩
  have ownersMatched : matchStep? "Ann owns:".toList ownersDefinition = some ownersResult := by
    decide +kernel
  have anybodyMatched : matchStep? "Ann owns:".toList anybodyDefinition = some anybodyResult := by
    decide +kernel
  have ownersWeight : totalWeight ownersDefinition.args = 90 := by decide +kernel
  have anybodyWeight : totalWeight anybodyDefinition.args = 90 := by decide +kernel
  have sameScore : specificity ownersDefinition.args = specificity anybodyDefinition.args := by
    rw [specificity, specificity, ownersWeight, anybodyWeight]
  have different : anybodyResult ≠ ownersResult := by decide +kernel
  have accepted : StepKeyword.givenStep.accepts .givenStep := rfl
  have chosen : bestMatch "Ann owns:".toList .givenStep [anybodyDefinition, ownersDefinition] =
      anybodyResult := by
    apply bestMatch_of_leading [] [_] accepted anybodyMatched (by simp)
    exact List.forall_mem_singleton.2 sameScore.le
  refine ⟨[.text " owns".toList, .table (some ["name".toList, "price".toList])], ownersResult,
    anybodyResult, ?_, ?_, ?_, ?_, accepted, accepted, ownersMatched, anybodyMatched, chosen,
    different⟩
  · decide +kernel
  · decide +kernel
  · rw [ownersWeight]
    decide
  · rw [anybodyWeight]
    decide

end StepGrammar
