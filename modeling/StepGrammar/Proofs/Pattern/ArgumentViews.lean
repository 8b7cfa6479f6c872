import StepGrammar.Display
import StepGrammar.Proofs.Pattern.Language
import StepGrammar.Segment

/-!
Contract: the views of a pattern agree on its arguments.

The declared arguments, the argument segments, the descriptions for a reader and the capture groups
each number the arguments on their own. All four are tied to one numbering, that of the
declarations of the tokens in their order, and `argument_views_agree` compares them. A table is in
the declared arguments and the descriptions only.
-/

namespace StepGrammar

open Regex

/-! ## One numbering for all views -/

/-- Declarations as definitions, where the first has the given position. -/
def defineFrom (index : Nat) : List Declaration → List ArgumentDefinition
  | [] => []
  | declaration :: rest => declaration.define index :: defineFrom (index + 1) rest

theorem mapIdx_define_eq (declarations : List Declaration) (index : Nat) :
    (declarations.mapIdx fun position declaration => declaration.define (index + position)) =
      defineFrom index declarations := by
  induction declarations generalizing index with
  | nil => rfl
  | cons declaration rest inductionHypothesis =>
      rw [List.mapIdx_cons, defineFrom, ← inductionHypothesis]
      simp [Nat.add_comm, Nat.add_left_comm]

theorem tokenArguments_eq_defineFrom (tokens : List Token) :
    tokenArguments tokens =
      defineFrom 0 (tokens.filterMap fun token => token.piece.declaration?) := by
  rw [← mapIdx_define_eq]
  simp [tokenArguments]

theorem defineFrom_append (index : Nat) (front back : List Declaration) :
    defineFrom index (front ++ back) =
      defineFrom index front ++ defineFrom (index + front.length) back := by
  induction front generalizing index with
  | nil => rfl
  | cons declaration rest inductionHypothesis =>
      rw [List.cons_append, defineFrom, inductionHypothesis, defineFrom, List.length_cons]
      simp [Nat.add_comm, Nat.add_left_comm]

theorem length_defineFrom (index : Nat) (declarations : List Declaration) :
    (defineFrom index declarations).length = declarations.length := by
  rw [← mapIdx_define_eq, List.length_mapIdx]

/-- The declarations of the tokens that take a value from the step line. -/
def inlineDeclarations (tokens : List Token) : List Declaration :=
  tokens.filterMap fun token => token.piece.inlineDeclaration?

/-- The arguments of a pattern that take a value from the step line. -/
def Pattern.inlineArguments (pattern : Pattern) : List ArgumentDefinition :=
  tokenArguments (pattern.tokens.filter fun token => !token.piece.isTable)

theorem inlineArguments_eq (pattern : Pattern) :
    pattern.inlineArguments = defineFrom 0 (inlineDeclarations pattern.tokens) := by
  rw [Pattern.inlineArguments, tokenArguments_eq_defineFrom, List.filterMap_filter,
    inlineDeclarations]
  congr
  funext token
  cases isTable : token.piece.isTable <;> simp [Piece.inlineDeclaration?, isTable]

theorem inlineDeclarations_of_not_isTable {tokens : List Token}
    (tableFree : ∀ token ∈ tokens, ¬token.piece.isTable) :
    inlineDeclarations tokens = tokens.filterMap fun token => token.piece.declaration? := by
  apply List.filterMap_congr
  intro token member
  rw [Piece.inlineDeclaration?, if_neg (tableFree token member)]

/-! ## Segments -/

def PatternSegment.isOutline (segment : PatternSegment) : Bool := isOutlineReference segment.value

/-- The definitions of the argument segments that are no outline references. -/
def segmentArguments (segments : List PatternSegment) : List ArgumentDefinition :=
  segments.filterMap fun segment =>
    if segment.kind = .arg ∧ ¬segment.isOutline then segment.arg else none

theorem segmentArguments_consText (value : Text) (segments : List PatternSegment) :
    segmentArguments (PatternSegment.consText value segments) = segmentArguments segments := by
  cases segments with
  | nil => rfl
  | cons first rest =>
      rw [PatternSegment.consText]
      split
      · rename_i isText
        simp [segmentArguments, PatternSegment.ofText, isText]
      · rfl

theorem segmentArguments_ofArg {value : Text} (notOutline : ¬isOutlineReference value)
    (definition : ArgumentDefinition) (segments : List PatternSegment) :
    segmentArguments (.ofArg value definition :: segments) =
      definition :: segmentArguments segments := by
  simp [segmentArguments, PatternSegment.ofArg, PatternSegment.isOutline, notOutline]

theorem segmentArguments_outline {value : Text} (outline : isOutlineReference value)
    (definition : ArgumentDefinition) (segments : List PatternSegment) :
    segmentArguments (.ofArg value definition :: segments) = segmentArguments segments := by
  simp [segmentArguments, PatternSegment.ofArg, PatternSegment.isOutline, outline]

theorem Token.IsLexed.isOutlineReference_raw {token : Token} (lexed : token.IsLexed) {name : Text}
    (piece : token.piece = .outline name) : isOutlineReference token.raw := by
  rcases lexed with marker | marker | wellFormed
  · simp [piece] at marker
  · simp [piece] at marker
  · unfold Token.WellFormed at wellFormed
    simp only [piece] at wellFormed
    exact wellFormed.2

/-- An argument other than an outline reference is not written like one. -/
theorem not_isOutlineReference_raw {token : Token} (lexed : token.IsLexed)
    (declares : token.piece.inlineDeclaration?.isSome) : ¬isOutlineReference token.raw := by
  intro outline
  have opens : token.raw.head? = some '<' := by
    rcases exists_of_isOutlineReference outline with ⟨name, written⟩
    rw [written]
    rfl
  rcases lexed with piece | piece | wellFormed
  · simp [piece, Piece.inlineDeclaration?, Piece.isTable, Piece.declaration?] at declares
  · simp [piece, Piece.inlineDeclaration?, Piece.isTable, Piece.declaration?] at declares
  · unfold Token.WellFormed at wellFormed
    cases piece : token.piece <;>
      simp_all [Piece.inlineDeclaration?, Piece.isTable, Piece.declaration?]

/-- Definitions completed by the caller's, where the first has the given position. -/
def completeFrom (caller : List ArgumentDefinition) (index : Nat) :
    List ArgumentDefinition → List ArgumentDefinition
  | [] => []
  | parsed :: rest => parsed.merge caller[index]? :: completeFrom caller (index + 1) rest

theorem completeFrom_nil (index : Nat) (definitions : List ArgumentDefinition) :
    completeFrom [] index definitions = definitions := by
  induction definitions generalizing index with
  | nil => rfl
  | cons parsed rest inductionHypothesis =>
      rw [completeFrom, inductionHypothesis]
      rfl

/-- The argument segments carry the definitions of the inline declarations, completed by the
caller's. -/
theorem segmentArguments_segmentsFrom (caller : List ArgumentDefinition) {tokens : List Token}
    (lexed : ∀ token ∈ tokens, token.IsLexed) (index : Nat) :
    segmentArguments (segmentsFrom caller index tokens) =
      completeFrom caller index (defineFrom index (inlineDeclarations tokens)) := by
  induction tokens generalizing index with
  | nil => rfl
  | cons token rest inductionHypothesis =>
      have head := (List.forall_mem_cons.1 lexed).1
      have tail := (List.forall_mem_cons.1 lexed).2
      rw [segmentsFrom]
      split
      · -- An outline reference is a segment of its own without a number.
        rename_i name piece
        rw [segmentArguments_outline (head.isOutlineReference_raw piece), inductionHypothesis tail]
        simp [inlineDeclarations, piece, Piece.inlineDeclaration?, Piece.isTable,
          Piece.declaration?]
      · split
        · rename_i declaration declares
          have notOutline := not_isOutlineReference_raw head (by rw [declares]; rfl)
          rw [segmentArguments_ofArg notOutline, inductionHypothesis tail]
          simp [inlineDeclarations, declares, defineFrom, completeFrom]
        · rename_i undeclared
          rw [segmentArguments_consText, inductionHypothesis tail]
          simp [inlineDeclarations, undeclared]

theorem segmentArguments_segments (pattern : Pattern) :
    segmentArguments (pattern.segments []) = pattern.inlineArguments := by
  rw [inlineArguments_eq, Pattern.segments, ite_self,
    segmentArguments_segmentsFrom [] (fun _ => isLexed_of_mem_tokens), completeFrom_nil]

/-! ## Descriptions -/

def ArgDescription.definition (description : ArgDescription) : ArgumentDefinition where
  name := description.name
  type := description.type
  enumValues := description.enumValues
  tableColumns := description.tableColumns

def Pattern.describedArguments (pattern : Pattern) : List ArgumentDefinition :=
  pattern.display.argDescriptions.map ArgDescription.definition

theorem map_definition_labelFrom (tokens : List Token) (index : Nat) :
    ((labelFrom index tokens).filterMap fun labelled =>
        labelled.label.map ArgDescription.ofLabel).map ArgDescription.definition =
      defineFrom index (tokens.filterMap fun token => token.piece.declaration?) := by
  induction tokens generalizing index with
  | nil => rfl
  | cons token rest inductionHypothesis =>
      rw [labelFrom]
      cases declares : token.piece.declaration? with
      | none => simpa [declares] using inductionHypothesis index
      | some declaration =>
          simp only [List.filterMap_cons, declares, Option.map_some, List.map_cons, defineFrom]
          rw [inductionHypothesis (index + 1)]
          rfl

theorem describedArguments_eq (pattern : Pattern) :
    pattern.describedArguments = tokenArguments pattern.tokens := by
  rw [tokenArguments_eq_defineFrom]
  exact map_definition_labelFrom pattern.tokens 0

/-! ## Capture groups -/

/-- Whether a capture group holds exactly the texts that an argument may take. An argument of any
type takes a line where its braces are empty. -/
def ArgumentDefinition.TakenFrom (definition : ArgumentDefinition) (body : Regex) : Prop :=
  match definition.type with
  | .enum => ∀ text, body.accepts text ↔ text ∈ definition.listedValues
  | .parameter type =>
    (∀ text, body.accepts text ↔ type.Accepts text) ∨
      (type = .any ∧ ∀ text, body.accepts text ↔ IsLine text)
  | .table => False

/-- The capture group of a piece holds the texts of the argument that the piece declares. -/
theorem takenFrom_captureBody {token : Token} (lexed : token.IsLexed) {declaration : Declaration}
    {body : Regex} (declares : token.piece.inlineDeclaration? = some declaration)
    (captures : token.piece.captureBody? = some body) (index : Nat) :
    (declaration.define index).TakenFrom body := by
  cases piece : token.piece with
  | enum values =>
      simp only [piece, Piece.inlineDeclaration?, Piece.isTable, Piece.declaration?,
        Piece.captureBody?, Bool.false_eq_true, if_false, Option.some.injEq] at declares captures
      obtain rfl := declares
      obtain rfl := captures
      intro text
      rw [accepts_iff_describes]
      exact describes_ofTexts (lexed.values_filled piece).1
  | parameter type name =>
      simp only [piece, Piece.inlineDeclaration?, Piece.isTable, Piece.declaration?,
        Piece.captureBody?, Bool.false_eq_true, if_false, Option.some.injEq] at declares captures
      obtain rfl := declares
      obtain rfl := captures
      refine Or.inl fun text => ?_
      rw [accepts_iff_describes]
      exact describes_typeExpression
  | anonymous =>
      simp only [piece, Piece.inlineDeclaration?, Piece.isTable, Piece.declaration?,
        Piece.captureBody?, Bool.false_eq_true, if_false, Option.some.injEq] at declares captures
      obtain rfl := declares
      obtain rfl := captures
      refine Or.inr ⟨rfl, fun text => ?_⟩
      rw [accepts_iff_describes]
      exact describes_line
  | _ => simp [piece, Piece.captureBody?] at captures

theorem inlineDeclaration?_isSome (piece : Piece) :
    piece.inlineDeclaration?.isSome = piece.isCaptured := by
  cases piece <;> rfl

/-- The capture groups hold the inline arguments, in the same order. -/
theorem forall₂_takenFrom {tokens : List Token} (lexed : ∀ token ∈ tokens, token.IsLexed)
    (index : Nat) :
    List.Forall₂ ArgumentDefinition.TakenFrom (defineFrom index (inlineDeclarations tokens))
      (tokens.filterMap fun token => token.piece.captureBody?) := by
  induction tokens generalizing index with
  | nil => exact .nil
  | cons token rest inductionHypothesis =>
      have head := (List.forall_mem_cons.1 lexed).1
      have tail := (List.forall_mem_cons.1 lexed).2
      have together : token.piece.captureBody?.isSome = token.piece.inlineDeclaration?.isSome := by
        rw [captureBody?_isSome, inlineDeclaration?_isSome]
      rw [inlineDeclarations, List.filterMap_cons, List.filterMap_cons]
      cases declares : token.piece.inlineDeclaration? with
      | none =>
          rw [declares, Option.isSome_none, Option.isSome_eq_false_iff, Option.isNone_iff_eq_none]
            at together
          rw [together]
          exact inductionHypothesis tail index
      | some declaration =>
          rw [declares, Option.isSome_some, Option.isSome_iff_exists] at together
          rcases together with ⟨body, captures⟩
          rw [captures]
          exact .cons (takenFrom_captureBody head declares captures index)
            (inductionHypothesis tail (index + 1))

theorem takenFrom_groupBodies (pattern : Pattern) :
    List.Forall₂ ArgumentDefinition.TakenFrom pattern.inlineArguments
      pattern.expression.groupBodies := by
  rw [inlineArguments_eq, groupBodies_expression]
  exact forall₂_takenFrom (fun _ => isLexed_of_mem_tokens) 0

/-! ## The views compared -/

theorem arguments_of_not_endsInTable {pattern : Pattern}
    (tableFree : endsInTable pattern.tokens = false) :
    pattern.arguments = pattern.inlineArguments ∧
      pattern.describedArguments = pattern.inlineArguments := by
  have inline : tokenArguments pattern.tokens = pattern.inlineArguments := by
    rw [inlineArguments_eq, tokenArguments_eq_defineFrom,
      inlineDeclarations_of_not_isTable fun _ => not_isTable_of_not_endsInTable tableFree]
  refine ⟨?_, by rw [describedArguments_eq, inline]⟩
  simp only [Pattern.arguments, tableFree, Bool.false_eq_true, if_false, inline]

def tableArgument (columns : Option (List Text)) (index : Nat) : ArgumentDefinition where
  name := positionalName index
  type := .table
  tableColumns := columns

theorem arguments_of_endsInTable {pattern : Pattern} (ends : endsInTable pattern.tokens) :
    ∃ columns, .table columns ∈ pattern.pieces ∧
      pattern.arguments = [tableArgument columns 0] ∧
      pattern.describedArguments =
        pattern.inlineArguments ++ [tableArgument columns pattern.inlineArguments.length] := by
  rcases tokens_of_endsInTable ends with ⟨inner, token, closing, split, innerFree, isTable, anchors⟩
  obtain ⟨columns, piece⟩ : ∃ columns, token.piece = .table columns := by
    cases piece : token.piece <;> simp_all [Piece.isTable]
  have closingFree : ∀ other ∈ closing, ¬other.piece.isTable := fun other member => by
    rw [anchors other member]
    exact Bool.false_ne_true
  have closingSilent : closing.filterMap (fun other => other.piece.declaration?) = [] :=
    List.filterMap_eq_nil_iff.2 fun other member => by rw [anchors other member]; rfl
  have onlyTable : pattern.tokens.filter (fun other => other.piece.isTable) = [token] := by
    rw [split, List.filter_append, List.filter_eq_nil_iff.2 innerFree, List.nil_append,
      List.filter_cons, if_pos isTable, List.filter_eq_nil_iff.2 closingFree]
  have declared : (pattern.tokens.filterMap fun other => other.piece.declaration?) =
      inlineDeclarations inner ++ [{ name := none, type := .table, tableColumns := columns }] := by
    rw [split, List.filterMap_append, inlineDeclarations_of_not_isTable innerFree,
      List.filterMap_cons, closingSilent, piece]
    rfl
  have inline : pattern.inlineArguments = defineFrom 0 (inlineDeclarations inner) := by
    have closingInline : inlineDeclarations closing = [] := by
      rw [inlineDeclarations_of_not_isTable closingFree, closingSilent]
    have tableSilent : token.piece.inlineDeclaration? = none := by
      rw [Piece.inlineDeclaration?, if_pos isTable]
    rw [inlineArguments_eq, split]
    simp only [inlineDeclarations, List.filterMap_append, List.filterMap_cons, tableSilent] at *
    rw [closingInline, List.append_nil]
  refine ⟨columns, ?_, ?_, ?_⟩
  · exact List.mem_map.2 ⟨token, by simp [split], piece⟩
  · simp only [Pattern.arguments, ends, if_true, onlyTable, List.take_one, List.head?_cons,
      Option.toList_some]
    rw [tokenArguments_eq_defineFrom, List.filterMap_cons, piece]
    rfl
  · rw [describedArguments_eq, tokenArguments_eq_defineFrom, declared, defineFrom_append, inline,
      length_defineFrom, Nat.zero_add]
    rfl

/-- The declared arguments, the argument segments that are no outline references, the descriptions
and the capture groups are one sequence. Where the pattern ends in a table, the table alone is
declared, the descriptions list it behind the arguments of the step line, and the segments and
groups leave it out. -/
theorem argument_views_agree (pattern : Pattern) :
    ∃ expression, read? pattern.source = some expression ∧
      if endsInTable pattern.tokens then
        ∃ columns, .table columns ∈ pattern.pieces ∧
          pattern.arguments = [tableArgument columns 0] ∧
          segmentArguments (pattern.segments []) = pattern.inlineArguments ∧
          pattern.describedArguments =
            pattern.inlineArguments ++ [tableArgument columns pattern.inlineArguments.length] ∧
          List.Forall₂ ArgumentDefinition.TakenFrom pattern.inlineArguments expression.groupBodies ∧
          expression.groups = pattern.inlineArguments.length
      else
        segmentArguments (pattern.segments []) = pattern.arguments ∧
          pattern.describedArguments = pattern.arguments ∧
          List.Forall₂ ArgumentDefinition.TakenFrom pattern.arguments expression.groupBodies ∧
          expression.groups = pattern.arguments.length := by
  have taken := takenFrom_groupBodies pattern
  have counted : pattern.expression.groups = pattern.inlineArguments.length := by
    rw [← length_groupBodies, taken.length_eq]
  refine ⟨pattern.expression, read?_source pattern, ?_⟩
  split
  · rename_i ends
    rcases arguments_of_endsInTable ends with ⟨columns, member, declared, described⟩
    exact ⟨columns, member, declared, segmentArguments_segments pattern, described, taken, counted⟩
  · rename_i tableFree
    rcases arguments_of_not_endsInTable (eq_false_of_ne_true tableFree) with ⟨declared, described⟩
    rw [declared]
    exact ⟨segmentArguments_segments pattern, described, taken, counted⟩

end StepGrammar
