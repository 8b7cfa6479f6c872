import StepGrammar.Proofs.Resolve.RoundTrip

/-!
Contract: a pattern accepts the text that it resolves to.

Each construct is written twice, as a fragment of the regular expression and as step text.
`Piece.Fills` names the values for which the two agree. Values may stand next to each other and
inside optional groups, so the text is accepted although its values may be read back differently.

A pattern that ends in a table declares no other argument, so it takes part only when there is none.
-/

namespace StepGrammar

open Regex

/-! ## Values for the arguments of a pattern -/

/-- Whether a value may be put into a piece. A choice without value takes the first of its texts,
and a table takes nothing from the step line. -/
def Piece.Fills : Piece → Text → Prop
  | .table _, _ => True
  | .enum values, value => value = [] ∨ value ∈ values
  | .parameter type _, value => type.Admits value
  | .anonymous, value => IsLine value
  | _, _ => False

/-- The pieces of a pattern that declare arguments, tables included. -/
def Pattern.argumentPieces (pattern : Pattern) : List Piece :=
  pattern.pieces.filter fun piece => piece.declaration?.isSome

/-! ## What is written for a value is a spelling -/

/-- A written string that stands alone is captured whole. -/
theorem fullMatch?_written_string {value : Text} (admits : ParameterType.string.Admits value) :
    (append (.capture ParameterType.string.expression) .empty).fullMatch?
        (ParameterType.string.written value) = some [some (ParameterType.string.written value)] := by
  have endsThere : ∀ text, Regex.empty.Describes text → Text.startsBlank text := by
    intro text described
    rw [show text = [] from described]
    rfl
  have captured : (append (.capture ParameterType.string.expression) .empty).fullMatch?
      (ParameterType.string.written value ++ []) =
        some [some (ParameterType.string.written value)] :=
    fullMatch?_string admits rfl endsThere rfl
  rwa [List.append_nil] at captured

theorem accepts_written {type : ParameterType} {value : Text} (admits : type.Admits value) :
    type.Accepts (type.written value) := by
  by_cases isString : type = .string
  · obtain rfl := isString
    -- A written string is captured whole, so it is one of the texts of the group.
    have described := fullMatch?_isSome_iff.1
      (Option.isSome_of_eq_some (fullMatch?_written_string admits))
    obtain ⟨front, back, split, accepted, rfl⟩ := described
    rw [List.append_nil] at split
    rw [split]
    exact describes_typeExpression.1 accepted
  · have bare : type.written value = value := by simp [ParameterType.written, isString]
    rw [bare]
    cases type with
    | string => exact absurd rfl isString
    | _ => exact admits

theorem chosenValue_mem {values : List Text} (listed : values ≠ []) {value : Text}
    (fills : value = [] ∨ value ∈ values) : chosenValue values (some value) ∈ values := by
  cases value with
  | nil =>
      cases values with
      | nil => exact absurd rfl listed
      | cons first rest => exact List.mem_cons_self
  | cons first rest => exact fills.resolve_left (List.cons_ne_nil _ _)

theorem spells_value {token : Token} (wellFormed : token.WellFormed)
    (captured : token.piece.isCaptured) {value : Text} (fills : token.piece.Fills value) :
    token.piece.Spells (token.piece.resolve (some value)) := by
  unfold Token.WellFormed at wellFormed
  cases piece : token.piece with
  | enum values =>
      simp only [piece] at wellFormed fills
      exact chosenValue_mem wellFormed.1 fills
  | parameter type name =>
      rw [piece] at fills
      exact accepts_written fills
  | anonymous =>
      rw [piece] at fills
      exact fills
  | _ =>
      rw [piece] at captured
      exact absurd captured Bool.false_ne_true

theorem spells_fixed {token : Token} (wellFormed : token.WellFormed)
    (uncaptured : ¬token.piece.isCaptured) : token.piece.Spells (token.piece.resolve none) := by
  unfold Token.WellFormed at wellFormed
  cases piece : token.piece with
  | alternatives words =>
      simp only [piece] at wellFormed
      cases words with
      | nil => exact absurd rfl wellFormed
      | cons first rest => exact List.mem_cons_self
  | optionalOpen | optionalClose => simp [piece] at wellFormed
  | enum | parameter | anonymous =>
      rw [piece] at uncaptured
      exact absurd rfl uncaptured
  | _ => exact rfl

/-! ## The resolved text is a spelling -/

/-- Tokens outside groups are spelled in front of what the later pieces resolve to, and leave them
their own values. -/
theorem substitute_tokens_append (tokens : List Token)
    (wellFormed : ∀ token ∈ tokens, token.WellFormed) {later : List Piece} {values : List Text}
    (fills : List.Forall₂ Piece.Fills
      (((tokens.map fun token => token.piece) ++ later).filter Piece.isCaptured) values) :
    ∃ front remaining,
      substitute ((tokens.map fun token => token.piece) ++ later) values =
          front ++ substitute later remaining ∧
        Spelled (tokens.map fun token => token.piece) front ∧
        List.Forall₂ Piece.Fills (later.filter Piece.isCaptured) remaining := by
  induction tokens generalizing values with
  | nil => exact ⟨[], values, rfl, .nil, fills⟩
  | cons token rest inductionHypothesis =>
      have head := (List.forall_mem_cons.1 wellFormed).1
      have tail := (List.forall_mem_cons.1 wellFormed).2
      rw [List.map_cons, List.cons_append] at fills ⊢
      rw [substitute]
      by_cases captured : token.piece.isCaptured
      · rw [List.filter_cons_of_pos captured] at fills
        obtain ⟨value, others, own, restFills, rfl⟩ := List.forall₂_cons_left_iff.1 fills
        obtain ⟨front, remaining, split, spelled, laterFills⟩ := inductionHypothesis tail restFills
        refine ⟨token.piece.resolve (some value) ++ front, remaining, ?_, ?_, laterFills⟩
        · rw [if_pos captured, List.head?_cons, List.tail_cons, split, List.append_assoc]
        · exact .piece (spells_value head captured own) spelled
      · rw [List.filter_cons_of_neg captured] at fills
        obtain ⟨front, remaining, split, spelled, laterFills⟩ := inductionHypothesis tail fills
        refine ⟨token.piece.resolve none ++ front, remaining, ?_, ?_, laterFills⟩
        · rw [if_neg captured, split, List.append_assoc]
        · exact .piece (spells_fixed head captured) spelled

/-- The text that parts resolve to takes every optional group. -/
theorem spelled_substitute {parts : List Part} (wellFormed : ∀ part ∈ parts, part.WellFormed)
    {values : List Text}
    (fills : List.Forall₂ Piece.Fills
      (((parts.flatMap Part.tokens).map fun token => token.piece).filter Piece.isCaptured) values) :
    Spelled ((parts.flatMap Part.tokens).map fun token => token.piece)
      (substitute ((parts.flatMap Part.tokens).map fun token => token.piece) values) := by
  induction parts generalizing values with
  | nil => exact .nil
  | cons part rest inductionHypothesis =>
      have head := (List.forall_mem_cons.1 wellFormed).1
      have tail := (List.forall_mem_cons.1 wellFormed).2
      cases part with
      | token single =>
          obtain ⟨front, remaining, split, spelled, restFills⟩ :=
            substitute_tokens_append [single] (List.forall_mem_singleton.2 head) fills
          obtain ⟨own, nothing, rfl, spells, ended⟩ :=
            (spelled_cons_iff (piece_ne_marker head).1).1 spelled
          obtain rfl := spelled_nil_iff.1 ended
          rw [List.append_nil] at split
          have whole := Spelled.piece spells (inductionHypothesis tail restFills)
          exact split ▸ whole
      | optional body =>
          have inside : ∀ token ∈ body, token.WellFormed := fun token member =>
            (head.2 token member).2
          rw [map_piece_optional] at fills ⊢
          -- The markers take no value and resolve to nothing.
          obtain ⟨front, remaining, split, spelled, restFills⟩ :=
            substitute_tokens_append body inside fills
          have whole := Spelled.taken (optionalClose_not_mem inside) spelled
            (inductionHypothesis tail restFills)
          exact split ▸ whole

/-! ## The pattern accepts the text -/

variable {pattern : Pattern}

theorem not_isCaptured_of_inlineArguments_eq_nil (nothing : pattern.inlineArguments = [])
    {piece : Piece} (member : piece ∈ pattern.pieces) : ¬piece.isCaptured := by
  obtain ⟨token, tokenMember, rfl⟩ := List.mem_map.1 member
  have silent : inlineDeclarations pattern.tokens = [] := by
    rw [← List.length_eq_zero_iff, ← length_defineFrom 0, ← inlineArguments_eq, nothing]
    rfl
  rw [← inlineDeclaration?_isSome, List.filterMap_eq_nil_iff.1 silent token tokenMember]
  exact Bool.false_ne_true

/-- Where a table takes no argument away, the arguments are those of all the pieces that declare
one. -/
theorem arguments_eq_argumentPieces
    (tableAlone : endsInTable pattern.tokens → pattern.inlineArguments = []) :
    pattern.arguments = defineFrom 0 (pattern.argumentPieces.filterMap Piece.declaration?) := by
  have declared : pattern.argumentPieces.filterMap Piece.declaration? =
      pattern.tokens.filterMap fun token => token.piece.declaration? := by
    rw [Pattern.argumentPieces, List.filterMap_filter, Pattern.pieces, List.filterMap_map]
    apply List.filterMap_congr
    intro token member
    cases declares : token.piece.declaration? <;> simp [declares]
  rw [declared, ← tokenArguments_eq_defineFrom, ← describedArguments_eq]
  by_cases ends : endsInTable pattern.tokens
  · obtain ⟨columns, -, alone, described⟩ := arguments_of_endsInTable ends
    rw [alone, described, tableAlone ends]
    rfl
  · obtain ⟨inline, described⟩ := arguments_of_not_endsInTable (eq_false_of_ne_true ends)
    rw [inline, described]

/-- Values are not handed to pieces that take none. -/
theorem resolvePieces_allocate_of_not_isCaptured {pieces : List Piece}
    (uncaptured : ∀ piece ∈ pieces, ¬piece.isCaptured) (values : List ConcreteArg) :
    resolvePieces pieces
        ((allocate pieces values).map fun arg => arg.map fun taken => taken.value) =
      substitute pieces [] := by
  induction pieces with
  | nil => rfl
  | cons piece later inductionHypothesis =>
      have head := (List.forall_mem_cons.1 uncaptured).1
      have tail := (List.forall_mem_cons.1 uncaptured).2
      rw [substitute, if_neg head, allocate_of_not_isCaptured head, ← inductionHypothesis tail]
      rfl

theorem argumentPieces_eq_captured (tableFree : endsInTable pattern.tokens = false) :
    pattern.argumentPieces = pattern.pieces.filter Piece.isCaptured := by
  apply List.filter_congr
  intro piece member
  obtain ⟨token, tokenMember, rfl⟩ := List.mem_map.1 member
  have notTable := not_isTable_of_not_endsInTable tableFree tokenMember
  rw [← inlineDeclaration?_isSome, Piece.inlineDeclaration?, if_neg notTable]

/-- With values for its arguments a pattern resolves to a spelling of its pieces. -/
theorem spelled_resolve {values : List Text}
    (tableAlone : endsInTable pattern.tokens → pattern.inlineArguments = [])
    (fills : List.Forall₂ Piece.Fills pattern.argumentPieces values)
    (sameLength : pattern.arguments.length = values.length) :
    Spelled pattern.pieces (pattern.resolve (pattern.argumentsWith values)) := by
  have wellFormed : ∀ part ∈ pattern.parts, part.WellFormed := fun _ => wellFormed_of_mem_parts
  by_cases ends : endsInTable pattern.tokens
  · have uncaptured : ∀ piece ∈ pattern.pieces, ¬piece.isCaptured := fun _ =>
      not_isCaptured_of_inlineArguments_eq_nil (tableAlone ends)
    have nothing : pattern.pieces.filter Piece.isCaptured = [] :=
      List.filter_eq_nil_iff.2 uncaptured
    have resolved : pattern.resolve (pattern.argumentsWith values) = substitute pattern.pieces [] :=
      resolvePieces_allocate_of_not_isCaptured uncaptured _
    rw [resolved]
    apply spelled_substitute wellFormed
    exact nothing ▸ .nil
  · have tableFree := eq_false_of_ne_true ends
    rw [argumentPieces_eq_captured tableFree] at fills
    rw [resolve_argumentsWith tableFree sameLength]
    exact spelled_substitute wellFormed fills

/-- A pattern accepts the text that it resolves to, whatever its constructs, when each of its
arguments is given a value of its piece. -/
theorem resolve_accepted {values : List Text}
    (tableAlone : endsInTable pattern.tokens → pattern.inlineArguments = [])
    (fills : List.Forall₂ Piece.Fills pattern.argumentPieces values)
    (accepted : pattern.compile ≠ .error (.tooLarge sizeLimit)) :
    pattern.arguments = defineFrom 0 (pattern.argumentPieces.filterMap Piece.declaration?) ∧
      pattern.arguments.length = values.length ∧
      ∃ expression, pattern.compile = .ok expression ∧
        expression.accepts (pattern.resolve (pattern.argumentsWith values)) := by
  have defined := arguments_eq_argumentPieces tableAlone
  have declaring : ∀ piece ∈ pattern.argumentPieces, piece.declaration?.isSome := by
    intro piece member
    exact (List.mem_filter.1 member).2
  have sameLength : pattern.arguments.length = values.length := by
    rw [defined, length_defineFrom, List.length_filterMap_eq_countP,
      List.countP_eq_length.2 declaring, fills.length_eq]
  refine ⟨defined, sameLength, pattern.expression, compile_eq_ok accepted, ?_⟩
  rw [accepts_iff_describes, describes_expression]
  exact spelled_resolve tableAlone fills sameLength

/-- A pattern with an argument inside an optional group and three arguments next to each other. -/
def loginPattern : Pattern :=
  "^I log/sign in( as {word:who}) {}(now|later){string} for <kind> {float}$".toList

/-- Values for a login, of which the choice is left open. -/
def loginValues : List Text := ["Bob".toList, "two pens".toList, [], "it's".toList, "-.5".toList]

theorem resolve_accepted_login :
    ∃ expression, loginPattern.compile = .ok expression ∧
      expression.accepts "I log in as Bob two pensnow\"it's\" for <kind> -.5".toList := by
  have pieces : loginPattern.argumentPieces =
      [.parameter .word (some "who".toList), .anonymous, .enum ["now".toList, "later".toList],
        .parameter .string none, .parameter .float none] := by decide +kernel
  have resolved : loginPattern.resolve (loginPattern.argumentsWith loginValues) =
      "I log in as Bob two pensnow\"it's\" for <kind> -.5".toList := by decide +kernel
  rw [← resolved]
  refine (resolve_accepted (by decide +kernel) ?_ ?_).2.2
  · rw [pieces]
    refine .cons ?_ (.cons ?_ (.cons ?_ (.cons ?_ (.cons ?_ .nil))))
    · exact isBare_of_isBlankFree (by simp) (by decide)
    · exact ⟨by simp, by decide⟩
    · exact Or.inl rfl
    · exact ⟨Or.inl (by decide), by decide⟩
    · exact ⟨['-'], [], ['.'], ['5'], rfl, Or.inr rfl, by simp, Or.inr rfl, by simp,
        List.forall_mem_singleton.2 (by decide)⟩
  · rw [compile_eq, if_pos (by decide +kernel)]
    simp

end StepGrammar
