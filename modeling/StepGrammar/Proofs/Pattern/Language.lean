import Mathlib.Data.List.Basic
import StepGrammar.Proofs.Pattern.Expression
import StepGrammar.Proofs.Regex.Language

/-!
Contract: the step texts that a pattern describes, read off its tokens.

`Spelled` says without any regular expression when a text is one piece for each token in turn.
`source_preserves_meaning` says that the written form of a pattern is well formed, that it accepts
the spelled texts and no others, and that its capture groups are those of the tokens that take a
value.
-/

namespace StepGrammar

open Regex

/-! ## The texts of one piece -/

def IsInteger (text : Text) : Prop :=
  ∃ sign digits, text = sign ++ digits ∧ (sign = [] ∨ sign = ['-']) ∧ digits ≠ [] ∧
    ∀ character ∈ digits, isDigit character

/-- A minus or nothing, any digits, a point or nothing, then digits. -/
def IsDecimal (text : Text) : Prop :=
  ∃ sign whole point places, text = sign ++ (whole ++ (point ++ places)) ∧
    (sign = [] ∨ sign = ['-']) ∧ (∀ character ∈ whole, isDigit character) ∧
    (point = [] ∨ point = ['.']) ∧ places ≠ [] ∧ ∀ character ∈ places, isDigit character

def IsBare (text : Text) : Prop := text ≠ [] ∧ ∀ character ∈ text, isBlank character = false

/-- A text between two quotes of a kind that it does not hold itself. -/
def IsQuoted (quote : Char) (text : Text) : Prop :=
  ∃ content, text = quote :: (content ++ [quote]) ∧ quote ∉ content

def IsLine (text : Text) : Prop := text ≠ [] ∧ '\n' ∉ text

def ParameterType.Accepts : ParameterType → Text → Prop
  | .string, text => IsQuoted '"' text ∨ IsQuoted '\x27' text ∨ IsBare text
  | .int, text => IsInteger text
  | .float, text => IsDecimal text
  | .word, text | .any, text => IsBare text

def Piece.Spells : Piece → Text → Prop
  | .anchor, spelling => spelling = []
  | .text characters, spelling => spelling = characters
  | .escape character, spelling => spelling = [character]
  | .table _, spelling => spelling = [':']
  | .enum values, spelling => spelling ∈ values
  | .parameter type _, spelling => type.Accepts spelling
  | .anonymous, spelling => IsLine spelling
  | .optionalOpen, _ | .optionalClose, _ => False
  | .alternatives words, spelling => spelling ∈ words
  | .outline name, spelling => spelling = outlineReference name

/-- Whether a text is a spelling of pieces in their order. A group between its markers may be left
out. -/
inductive Spelled : List Piece → Text → Prop
  | nil : Spelled [] []
  | piece {piece pieces front back} (spells : piece.Spells front) (rest : Spelled pieces back) :
      Spelled (piece :: pieces) (front ++ back)
  | taken {body pieces front back} (closed : .optionalClose ∉ body) (inside : Spelled body front)
      (rest : Spelled pieces back) :
      Spelled (.optionalOpen :: (body ++ .optionalClose :: pieces)) (front ++ back)
  | skipped {body pieces back} (closed : .optionalClose ∉ body) (rest : Spelled pieces back) :
      Spelled (.optionalOpen :: (body ++ .optionalClose :: pieces)) back

def Pattern.pieces (pattern : Pattern) : List Piece := pattern.tokens.map fun token => token.piece

/-- Whether a piece takes a value from the step text. -/
def Piece.isCaptured : Piece → Bool
  | .enum _ | .parameter _ _ | .anonymous => true
  | _ => false

theorem spelled_nil_iff {text : Text} : Spelled [] text ↔ text = [] := by
  constructor
  · intro spelled
    cases spelled
    rfl
  · intro same
    subst same
    exact .nil

theorem spelled_cons_iff {piece : Piece} {pieces : List Piece} {text : Text}
    (notOpening : piece ≠ .optionalOpen) :
    Spelled (piece :: pieces) text ↔
      ∃ front back, text = front ++ back ∧ piece.Spells front ∧ Spelled pieces back := by
  constructor
  · intro spelled
    cases spelled with
    | piece spells rest => exact ⟨_, _, rfl, spells, rest⟩
    | taken => exact absurd rfl notOpening
    | skipped => exact absurd rfl notOpening
  · intro parts
    rcases parts with ⟨front, back, rfl, spells, rest⟩
    exact .piece spells rest

/-- What stands before the first closing marker, and what after it, is determined. -/
theorem eq_of_append_optionalClose {body other pieces rest : List Piece}
    (bodyFree : .optionalClose ∉ body) (otherFree : .optionalClose ∉ other)
    (same : body ++ .optionalClose :: pieces = other ++ .optionalClose :: rest) :
    body = other ∧ pieces = rest := by
  induction body generalizing other with
  | nil =>
      cases other with
      | nil => exact ⟨rfl, (List.cons_eq_cons.1 same).2⟩
      | cons first other =>
          have head := (List.cons_eq_cons.1 same).1
          exact absurd (List.mem_cons.2 (Or.inl head)) otherFree
  | cons first body inductionHypothesis =>
      cases other with
      | nil =>
          have head := (List.cons_eq_cons.1 same).1
          exact absurd (List.mem_cons.2 (Or.inl head.symm)) bodyFree
      | cons second other =>
          rcases List.cons_eq_cons.1 same with ⟨rfl, tails⟩
          have both := inductionHypothesis (fun member => bodyFree (by simp [member]))
            (fun member => otherFree (by simp [member])) tails
          exact ⟨by rw [both.1], both.2⟩

theorem spelled_optional_iff {body pieces : List Piece} {text : Text}
    (closed : .optionalClose ∉ body) :
    Spelled (.optionalOpen :: (body ++ .optionalClose :: pieces)) text ↔
      ∃ front back, text = front ++ back ∧ (front = [] ∨ Spelled body front) ∧
        Spelled pieces back := by
  constructor
  · intro spelled
    generalize whole : body ++ .optionalClose :: pieces = inner at spelled
    cases spelled with
    | piece spells rest => exact spells.elim
    | taken otherClosed inside rest =>
        rcases eq_of_append_optionalClose closed otherClosed whole with ⟨rfl, rfl⟩
        exact ⟨_, _, rfl, Or.inr inside, rest⟩
    | skipped otherClosed rest =>
        rcases eq_of_append_optionalClose closed otherClosed whole with ⟨rfl, rfl⟩
        exact ⟨[], _, rfl, Or.inl rfl, rest⟩
  · intro parts
    rcases parts with ⟨front, back, rfl, rfl | inside, rest⟩
    · exact .skipped closed rest
    · exact .taken closed inside rest

/-! ## The expression describes the spelled texts -/

theorem describes_literalItems {text whole : Text} {items : List Regex} :
    (ofSequence (literalItems text ++ items)).Describes whole ↔
      ∃ back, whole = text ++ back ∧ (ofSequence items).Describes back := by
  induction text generalizing whole with
  | nil => simp [literalItems]
  | cons character text inductionHypothesis =>
      constructor
      · intro described
        rcases described with ⟨front, back, rfl, ⟨accepted, rfl, same⟩, rest⟩
        rcases inductionHypothesis.1 rest with ⟨remaining, rfl, described⟩
        obtain rfl : accepted = character := by simpa [CharClass.accepts] using same
        exact ⟨remaining, rfl, described⟩
      · intro consumed
        rcases consumed with ⟨back, rfl, described⟩
        refine ⟨[character], text ++ back, rfl, ⟨character, rfl, ?_⟩, ?_⟩
        · simp [CharClass.accepts]
        · exact inductionHypothesis.2 ⟨back, rfl, described⟩

theorem describes_literal {text whole : Text} : (literal text).Describes whole ↔ whole = text := by
  have items : (ofSequence (literalItems text ++ [])).Describes whole ↔ _ := describes_literalItems
  rw [List.append_nil] at items
  exact items.trans (by simp [ofSequence, Describes])

theorem describes_ofTexts {texts : List Text} (nonempty : texts ≠ []) {text : Text} :
    (ofTexts texts).Describes text ↔ text ∈ texts := by
  cases texts with
  | nil => exact absurd rfl nonempty
  | cons first rest =>
      rw [ofTexts, List.map_cons, ofChoice, describes_ofAlternatives]
      simp [describes_literal]

theorem describes_quoted {quote : Char} {text : Text} :
    (ofSequence [.one (.only quote), .star (.except quote), .one (.only quote)]).Describes text ↔
      IsQuoted quote text := by
  constructor
  · rintro ⟨_, _, rfl, ⟨opening, rfl, opens⟩, content, _, rfl, free, _, _, rfl,
      ⟨closing, rfl, closes⟩, rfl⟩
    obtain rfl : opening = quote := by simpa [CharClass.accepts] using opens
    obtain rfl : closing = opening := by simpa [CharClass.accepts] using closes
    refine ⟨content, by simp, ?_⟩
    intro member
    simpa [CharClass.accepts] using free _ member
  · intro quoted
    rcases quoted with ⟨content, rfl, free⟩
    refine ⟨[quote], _, rfl, ⟨quote, rfl, by simp [CharClass.accepts]⟩, content, _, rfl, ?_,
      [quote], [], rfl, ⟨quote, rfl, by simp [CharClass.accepts]⟩, rfl⟩
    intro character member
    have : character ≠ quote := fun same => free (same ▸ member)
    simpa [CharClass.accepts] using this

theorem describes_bare {text : Text} :
    (ofSequence [.plus .nonBlank]).Describes text ↔ IsBare text := by
  rw [describes_ofSequence_singleton]
  simp [Describes, IsBare, CharClass.accepts]

theorem describes_line {text : Text} :
    (ofSequence [.plus .nonNewline]).Describes text ↔ IsLine text := by
  rw [describes_ofSequence_singleton]
  simp only [Describes, IsLine, CharClass.accepts, bne_iff_ne]
  constructor
  · intro described
    rcases described with ⟨nonempty, free⟩
    exact ⟨nonempty, fun member => free _ member rfl⟩
  · intro line
    rcases line with ⟨nonempty, free⟩
    exact ⟨nonempty, fun character member same => free (same ▸ member)⟩

/-- An optional character is nothing or that character. -/
theorem describes_option_only {character : Char} {text : Text} :
    (Regex.option (.one (.only character))).Describes text ↔ text = [] ∨ text = [character] := by
  simp [Describes, CharClass.accepts]

theorem describes_typeExpression {type : ParameterType} {text : Text} :
    type.expression.Describes text ↔ type.Accepts text := by
  cases type with
  | string =>
      rw [ParameterType.expression, ofChoice, describes_ofAlternatives]
      simp [describes_quoted, describes_bare, ParameterType.Accepts]
  | int =>
      constructor
      · intro described
        rcases described with ⟨sign, _, rfl, signed, digits, _, rfl, ⟨nonempty, all⟩, rfl⟩
        exact ⟨sign, digits, by simp, describes_option_only.1 signed, nonempty, all⟩
      · intro accepts
        rcases accepts with ⟨sign, digits, rfl, signed, nonempty, all⟩
        exact ⟨sign, digits, rfl, describes_option_only.2 signed, digits, [], by simp,
          ⟨nonempty, all⟩, rfl⟩
  | float =>
      constructor
      · rintro ⟨sign, _, rfl, signed, whole, _, rfl, wholeAll, point, _, rfl, pointed, places, _,
          rfl, ⟨nonempty, all⟩, rfl⟩
        exact ⟨sign, whole, point, places, by simp, describes_option_only.1 signed, wholeAll,
          describes_option_only.1 pointed, nonempty, all⟩
      · intro accepts
        rcases accepts with
          ⟨sign, whole, point, places, rfl, signed, wholeAll, pointed, nonempty, all⟩
        exact ⟨sign, _, rfl, describes_option_only.2 signed, whole, _, rfl, wholeAll, point, _, rfl,
          describes_option_only.2 pointed, places, [], by simp, ⟨nonempty, all⟩, rfl⟩
  | word => exact describes_bare
  | any => exact describes_bare

/-- The items of a token consume a spelling of its piece. -/
theorem describes_items {token : Token} (wellFormed : token.WellFormed) {items : List Regex}
    {whole : Text} :
    (ofSequence (token.piece.items ++ items)).Describes whole ↔
      ∃ front back, whole = front ++ back ∧ token.piece.Spells front ∧
        (ofSequence items).Describes back := by
  have literal : ∀ text : Text,
      (ofSequence (literalItems text ++ items)).Describes whole ↔
        ∃ front back, whole = front ++ back ∧ front = text ∧ (ofSequence items).Describes back := by
    intro text
    rw [describes_literalItems]
    constructor
    · intro consumed
      rcases consumed with ⟨back, rfl, described⟩
      exact ⟨text, back, rfl, rfl, described⟩
    · intro consumed
      rcases consumed with ⟨front, back, rfl, rfl, described⟩
      exact ⟨back, rfl, described⟩
  have single : ∀ (item : Regex) (spells : Text → Prop),
      (∀ text, item.Describes text ↔ spells text) →
      ((ofSequence ([item] ++ items)).Describes whole ↔
        ∃ front back, whole = front ++ back ∧ spells front ∧
          (ofSequence items).Describes back) := by
    intro item spells same
    simp only [← same]
    exact Iff.rfl
  unfold Token.WellFormed at wellFormed
  cases piece : token.piece with
  | anchor => exact literal []
  | text characters => exact literal characters
  | escape character => exact literal [character]
  | table columns => exact literal [':']
  | enum values =>
      simp only [piece] at wellFormed
      exact single _ _ fun text => describes_ofTexts wellFormed.1
  | parameter type name => exact single _ _ fun text => describes_typeExpression
  | anonymous => exact single _ _ fun text => describes_line
  | optionalOpen => simp [piece] at wellFormed
  | optionalClose => simp [piece] at wellFormed
  | alternatives words =>
      simp only [piece] at wellFormed
      exact single _ _ fun text => describes_ofTexts wellFormed
  | outline name => exact literal (outlineReference name)

theorem piece_ne_marker {token : Token} (wellFormed : token.WellFormed) :
    token.piece ≠ .optionalOpen ∧ token.piece ≠ .optionalClose := by
  unfold Token.WellFormed at wellFormed
  cases piece : token.piece <;> simp_all

theorem optionalClose_not_mem {tokens : List Token}
    (wellFormed : ∀ token ∈ tokens, token.WellFormed) :
    .optionalClose ∉ tokens.map fun token => token.piece := by
  intro member
  rcases List.mem_map.1 member with ⟨token, tokenMember, piece⟩
  exact (piece_ne_marker (wellFormed token tokenMember)).2 piece

theorem map_piece_optional (body : List Token) (parts : List Part) :
    ((Part.optional body :: parts).flatMap Part.tokens).map (fun token => token.piece) =
      .optionalOpen :: ((body.map fun token => token.piece) ++
        .optionalClose :: (parts.flatMap Part.tokens).map fun token => token.piece) := by
  simp [Part.tokens]

/-- The items of tokens outside groups describe the spellings of their pieces. -/
theorem describes_tokenItems {tokens : List Token} (wellFormed : ∀ token ∈ tokens, token.WellFormed)
    {whole : Text} :
    (ofSequence (tokenItems tokens)).Describes whole ↔
      Spelled (tokens.map fun token => token.piece) whole := by
  induction tokens generalizing whole with
  | nil => exact spelled_nil_iff.symm
  | cons token rest inductionHypothesis =>
      have head := (List.forall_mem_cons.1 wellFormed).1
      have tail := (List.forall_mem_cons.1 wellFormed).2
      rw [List.map_cons, spelled_cons_iff (piece_ne_marker head).1, tokenItems, List.flatMap_cons,
        describes_items head]
      simp only [← inductionHypothesis tail]
      rfl

/-- The items of parts describe the spellings of their pieces. -/
theorem describes_partItems {parts : List Part} (wellFormed : ∀ part ∈ parts, part.WellFormed)
    {whole : Text} :
    (ofSequence (parts.flatMap Part.items)).Describes whole ↔
      Spelled ((parts.flatMap Part.tokens).map fun token => token.piece) whole := by
  induction parts generalizing whole with
  | nil => exact spelled_nil_iff.symm
  | cons part rest inductionHypothesis =>
      have head := (List.forall_mem_cons.1 wellFormed).1
      have tail := (List.forall_mem_cons.1 wellFormed).2
      cases part with
      | token single =>
          have pieces : (((Part.token single :: rest).flatMap Part.tokens).map
              fun token => token.piece) =
                single.piece :: (rest.flatMap Part.tokens).map fun token => token.piece := rfl
          rw [pieces, spelled_cons_iff (piece_ne_marker head).1, List.flatMap_cons, Part.items,
            describes_items head]
          simp only [inductionHypothesis tail]
      | optional body =>
          have inside : ∀ token ∈ body, token.WellFormed := fun token member =>
            (head.2 token member).2
          rw [map_piece_optional, spelled_optional_iff (optionalClose_not_mem inside)]
          simp only [← inductionHypothesis tail, ← describes_tokenItems inside]
          rfl

theorem describes_expression {pattern : Pattern} {text : Text} :
    pattern.expression.Describes text ↔ Spelled pattern.pieces text :=
  describes_partItems fun _ => wellFormed_of_mem_parts

/-! ## The capture groups are those of the captured pieces -/

theorem groupBodies_literalItems (text : Text) : (literalItems text).flatMap groupBodies = [] := by
  simp [literalItems, groupBodies]

theorem groupBodies_ofTexts (texts : List Text) : (ofTexts texts).groupBodies = [] := by
  have literalFree : ∀ text, (literal text).groupBodies = [] := fun text => by
    rw [literal, groupBodies_ofSequence]
    exact groupBodies_literalItems text
  cases texts with
  | nil => rfl
  | cons first rest =>
      rw [ofTexts, List.map_cons, ofChoice, groupBodies_ofAlternatives]
      simp [literalFree]

theorem groups_ofTexts (texts : List Text) : (ofTexts texts).groups = 0 := by
  rw [← length_groupBodies, groupBodies_ofTexts]
  rfl

theorem groups_expression_eq_zero (type : ParameterType) : type.expression.groups = 0 := by
  cases type <;> rfl

theorem groupBodies_items (piece : Piece) :
    piece.items.flatMap groupBodies = piece.captureBody?.toList := by
  cases piece with
  | parameter type name => cases type <;> rfl
  | enum values => simp [Piece.items, Piece.captureBody?, groupBodies, groupBodies_ofTexts]
  | alternatives words => simp [Piece.items, Piece.captureBody?, groupBodies_ofTexts]
  | text | escape | outline => exact groupBodies_literalItems _
  | _ => rfl

theorem groupBodies_part (part : Part) :
    part.items.flatMap groupBodies =
      part.tokens.filterMap fun token => token.piece.captureBody? := by
  cases part with
  | token single =>
      rw [Part.items, groupBodies_items, Part.tokens]
      cases body : single.piece.captureBody? <;> simp [body]
  | optional body =>
      simp only [Part.items, Part.tokens, List.flatMap_singleton, groupBodies,
        groupBodies_ofSequence, tokenItems, List.flatMap_assoc, groupBodies_items]
      simp [Piece.captureBody?, List.filterMap_eq_flatMap_toList]

/-- The capture groups of the expression hold, in their order, what the captured pieces accept. -/
theorem groupBodies_expression (pattern : Pattern) :
    pattern.expression.groupBodies =
      pattern.tokens.filterMap fun token => token.piece.captureBody? := by
  rw [Pattern.expression, groupBodies_ofSequence, List.flatMap_assoc, Pattern.tokens,
    List.filterMap_flatMap]
  simp only [groupBodies_part]

theorem captureBody?_isSome (piece : Piece) : piece.captureBody?.isSome = piece.isCaptured := by
  cases piece <;> rfl

theorem groups_expression (pattern : Pattern) :
    pattern.expression.groups = pattern.pieces.countP Piece.isCaptured := by
  rw [← length_groupBodies, groupBodies_expression, List.length_filterMap_eq_countP,
    Pattern.pieces, List.countP_map]
  simp only [captureBody?_isSome]
  rfl

/-- The written form of a pattern is well formed, and what is read from it accepts exactly the
spellings of the pieces. It has one capture group for each captured piece, in their order. Whatever
check of the size is made, it decides only whether that expression is accepted. -/
theorem source_preserves_meaning (pattern : Pattern) :
    ∃ expression, read? pattern.source = some expression ∧
      (∀ fits, compileWith fits pattern.source =
        if fits expression then .ok expression else .error (.tooLarge sizeLimit)) ∧
      (pattern.compile = .ok expression ∨ pattern.compile = .error (.tooLarge sizeLimit)) ∧
      (∀ text, expression.accepts text ↔ Spelled pattern.pieces text) ∧
      expression.groups = pattern.pieces.countP Piece.isCaptured ∧
      expression.groupBodies = pattern.pieces.filterMap Piece.captureBody? := by
  refine ⟨pattern.expression, read?_source pattern, fun fits => compileWith_source fits pattern,
    ?_, ?_, groups_expression pattern, ?_⟩
  · rw [compile_eq]
    split
    · exact .inl rfl
    · exact .inr rfl
  · intro text
    rw [accepts_iff_describes, describes_expression]
  · rw [groupBodies_expression, Pattern.pieces, List.filterMap_map]
    rfl

end StepGrammar
