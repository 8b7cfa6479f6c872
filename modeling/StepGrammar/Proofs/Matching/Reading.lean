import StepGrammar.Matching
import StepGrammar.Proofs.Pattern.Language
import StepGrammar.Proofs.Regex.FirstMatch

/-!
Contract: every way to match a pattern reads a stretch of the text for each piece.

`Spelled` says that a text can be cut into stretches of the pieces. `IsReading` has the same cases and
keeps the stretches: a piece in a group that was left out has none. `exists_reading_of_captures?` says that the captures
of a match are the stretches of the captured pieces in such a reading, in the order of the pieces.
-/

namespace StepGrammar

open Regex

/-- Whether the slots list pieces in their order with what each of them stands for in a text.
A group between its markers may be left out, and then nothing in it has a stretch. -/
inductive IsReading : List (Piece × Option Text) → Prop
  | nil : IsReading []
  | piece {piece : Piece} {stretch slots} (spells : piece.Spells stretch) (rest : IsReading slots) :
      IsReading ((piece, some stretch) :: slots)
  | taken {inner slots} (closed : Piece.optionalClose ∉ inner.map Prod.fst) (inside : IsReading inner)
      (rest : IsReading slots) :
      IsReading ((.optionalOpen, some []) :: (inner ++ (.optionalClose, some []) :: slots))
  | skipped {body : List Piece} {slots} (closed : .optionalClose ∉ body) (rest : IsReading slots) :
      IsReading ((.optionalOpen, none) ::
        ((body.map fun piece => (piece, none)) ++ (.optionalClose, none) :: slots))

def readingText (reading : List (Piece × Option Text)) : Text :=
  (reading.filterMap Prod.snd).flatten

/-- The stretches of the pieces of a reading that take a value. -/
def readingCaptures (reading : List (Piece × Option Text)) : Captures :=
  (reading.filter fun slot => slot.1.isCaptured).map Prod.snd

theorem readingCaptures_append (first second : List (Piece × Option Text)) :
    readingCaptures (first ++ second) = readingCaptures first ++ readingCaptures second := by
  simp [readingCaptures]

theorem readingCaptures_skipped (body : List Piece) :
    readingCaptures (body.map fun piece => (piece, none)) =
      List.replicate (body.countP Piece.isCaptured) none := by
  rw [readingCaptures, List.filter_map, List.map_map, List.countP_eq_length_filter]
  exact List.map_const'

/-! ## Matching reads the text -/

/-- Whether a way to match takes a stretch of a piece and then matches what follows. -/
def ReadsFirst (piece : Piece) (next : Regex) (text : Text) (parse : Captures × Text) : Prop :=
  ∃ stretch behind later, text = stretch ++ behind ∧ piece.Spells stretch ∧
    parse.1 = readingCaptures [(piece, some stretch)] ++ later ∧
    (later, parse.2) ∈ next.parses behind

/-- Whether a way to match captures what is captured in a reading of what it consumes. -/
def Reads (pieces : List Piece) (text : Text) (parse : Captures × Text) : Prop :=
  ∃ reading, IsReading reading ∧ reading.map Prod.fst = pieces ∧
    parse.1 = readingCaptures reading ∧ text = readingText reading ++ parse.2

theorem exists_rest_of_mem_parses {literal : Text} {items : List Regex} {text : Text}
    {parse : Captures × Text}
    (member : parse ∈ (ofSequence (literalItems literal ++ items)).parses text) :
    ∃ rest, text = literal ++ rest ∧ parse ∈ (ofSequence items).parses rest := by
  induction literal generalizing text with
  | nil => exact ⟨text, rfl, member⟩
  | cons character literal inductionHypothesis =>
      obtain ⟨earlier, earlierMember, later, laterMember, rfl⟩ := mem_parses_append_iff.1 member
      obtain ⟨behind, single, rfl⟩ := List.mem_map.1 earlierMember
      obtain ⟨first, rfl, same⟩ := mem_single_iff.1 single
      obtain rfl : first = character := by simpa [CharClass.accepts] using same
      obtain ⟨rest, rfl, restMember⟩ := inductionHypothesis laterMember
      exact ⟨rest, rfl, restMember⟩

section First

variable {piece : Piece} {items : List Regex} {text : Text} {parse : Captures × Text}

theorem readsFirst_literal {characters : Text} (uncaptured : ¬piece.isCaptured)
    (spells : piece.Spells characters)
    (member : parse ∈ (ofSequence (literalItems characters ++ items)).parses text) :
    ReadsFirst piece (ofSequence items) text parse := by
  obtain ⟨behind, rfl, rest⟩ := exists_rest_of_mem_parses member
  refine ⟨characters, behind, parse.1, rfl, spells, ?_, rest⟩
  simp [readingCaptures, uncaptured]

theorem readsFirst_silent {body : Regex} (uncaptured : ¬piece.isCaptured)
    (noGroups : body.groups = 0) (spells : ∀ stretch, body.Describes stretch → piece.Spells stretch)
    (member : parse ∈ (ofSequence (body :: items)).parses text) :
    ReadsFirst piece (ofSequence items) text parse := by
  obtain ⟨earlier, earlierMember, later, laterMember, rfl⟩ := mem_parses_append_iff.1 member
  obtain ⟨stretch, rfl, described⟩ := exists_mem_parsesWith_iff.1 ⟨earlier.1, earlierMember⟩
  refine ⟨stretch, earlier.2, later.1, rfl, spells stretch described, ?_, laterMember⟩
  simp [readingCaptures, uncaptured, eq_nil_of_mem_parses noGroups earlierMember]

theorem readsFirst_group {body : Regex} (captured : piece.isCaptured) (noGroups : body.groups = 0)
    (spells : ∀ stretch, body.Describes stretch → piece.Spells stretch)
    (member : parse ∈ (ofSequence (.capture body :: items)).parses text) :
    ReadsFirst piece (ofSequence items) text parse := by
  obtain ⟨stretch, behind, later, rfl, described, recorded, rest⟩ :=
    exists_piece_of_mem_parses noGroups member
  refine ⟨stretch, behind, later, rfl, spells stretch described, ?_, rest⟩
  simp [readingCaptures, captured, recorded]

/-- The items of a piece take a stretch that it spells, and record it if the piece is captured. -/
theorem readsFirst_of_mem_parses (standsAlone : piece ≠ .optionalOpen ∧ piece ≠ .optionalClose)
    (filled : ∀ listed, piece = .enum listed ∨ piece = .alternatives listed → listed ≠ [])
    (member : parse ∈ (ofSequence (piece.items ++ items)).parses text) :
    ReadsFirst piece (ofSequence items) text parse := by
  cases piece with
  | anchor | text | escape | table | outline =>
      exact readsFirst_literal Bool.false_ne_true rfl member
  | enum listed =>
      have nonempty := filled listed (Or.inl rfl)
      exact readsFirst_group rfl (groups_ofTexts listed)
        (fun _ => (describes_ofTexts nonempty).1) member
  | parameter type name =>
      exact readsFirst_group rfl (groups_expression_eq_zero type)
        (fun _ => describes_typeExpression.1) member
  | anonymous => exact readsFirst_group rfl rfl (fun _ => describes_line.1) member
  | optionalOpen => exact absurd rfl standsAlone.1
  | optionalClose => exact absurd rfl standsAlone.2
  | alternatives words =>
      have nonempty := filled words (Or.inr rfl)
      exact readsFirst_silent Bool.false_ne_true (groups_ofTexts words)
        (fun _ => (describes_ofTexts nonempty).1) member

end First

theorem filled_of_wellFormed {token : Token} (wellFormed : token.WellFormed) (listed : List Text)
    (isList : token.piece = .enum listed ∨ token.piece = .alternatives listed) : listed ≠ [] := by
  unfold Token.WellFormed at wellFormed
  rcases isList with isEnum | isAlternatives
  · rw [isEnum] at wellFormed
    exact wellFormed.1
  · rwa [isAlternatives] at wellFormed

theorem reads_cons {piece : Piece} {pieces : List Piece} {next : Regex} {text : Text}
    {parse : Captures × Text} (first : ReadsFirst piece next text parse)
    (rest : ∀ {behind : Text} {later : Captures × Text}, later ∈ next.parses behind →
      Reads pieces behind later) : Reads (piece :: pieces) text parse := by
  obtain ⟨stretch, behind, later, rfl, spells, captures, member⟩ := first
  obtain ⟨reading, isReading, rfl, laterCaptures, rfl⟩ := rest member
  refine ⟨(piece, some stretch) :: reading, .piece spells isReading, rfl, ?_, ?_⟩
  · change later = readingCaptures reading at laterCaptures
    rw [captures, laterCaptures, ← readingCaptures_append]
    rfl
  · rw [← List.append_assoc]
    rfl

/-- The items of tokens outside groups read their pieces. -/
theorem reads_tokenItems {tokens : List Token} (wellFormed : ∀ token ∈ tokens, token.WellFormed)
    {text : Text} {parse : Captures × Text}
    (member : parse ∈ (ofSequence (tokenItems tokens)).parses text) :
    Reads (tokens.map fun token => token.piece) text parse := by
  induction tokens generalizing text parse with
  | nil =>
      obtain rfl := List.mem_singleton.1 member
      exact ⟨[], .nil, rfl, rfl, rfl⟩
  | cons token rest inductionHypothesis =>
      obtain ⟨head, tail⟩ := List.forall_mem_cons.1 wellFormed
      exact reads_cons
        (readsFirst_of_mem_parses (piece_ne_marker head) (filled_of_wellFormed head) member)
        (inductionHypothesis tail)

theorem groups_tokenItems (tokens : List Token) :
    (ofSequence (tokenItems tokens)).groups =
      (tokens.map fun token => token.piece).countP Piece.isCaptured := by
  rw [← length_groupBodies, groupBodies_ofSequence, tokenItems, List.flatMap_assoc]
  simp only [groupBodies_items]
  rw [← List.filterMap_eq_flatMap_toList, List.length_filterMap_eq_countP, List.countP_map]
  simp only [captureBody?_isSome]
  rfl

/-- An optional group reads its tokens between its markers, or leaves all of them out. -/
theorem reads_optional {body : List Token} (inside : ∀ token ∈ body, token.WellFormed)
    {pieces : List Piece} {next : Regex} {text : Text} {parse : Captures × Text}
    (member : parse ∈ (append (.option (ofSequence (tokenItems body))) next).parses text)
    (rest : ∀ {behind : Text} {later : Captures × Text}, later ∈ next.parses behind →
      Reads pieces behind later) :
    Reads (.optionalOpen :: ((body.map fun token => token.piece) ++ .optionalClose :: pieces)) text
      parse := by
  obtain ⟨earlier, earlierMember, later, laterMember, rfl⟩ := mem_parses_append_iff.1 member
  obtain ⟨slots, isReading, rfl, laterCaptures, split⟩ := rest laterMember
  -- The ways to match a group are those of its tokens, and then the one that leaves it out.
  rcases List.mem_append.1 earlierMember with taken | skipped
  · obtain ⟨inner, isInner, innerPieces, captures, rfl⟩ := reads_tokenItems inside taken
    have closed : .optionalClose ∉ inner.map Prod.fst := by
      rw [innerPieces]
      exact optionalClose_not_mem inside
    refine ⟨_, .taken closed isInner isReading, ?_, ?_, ?_⟩
    · simp [innerPieces]
    · rw [captures, laterCaptures, ← readingCaptures_append]
      simp [readingCaptures, Piece.isCaptured]
    · rw [split]
      simp [readingText]
  · obtain rfl := List.mem_singleton.1 skipped
    refine ⟨_, .skipped (optionalClose_not_mem inside) isReading, ?_, ?_, ?_⟩
    · simp
    · rw [absent, groups_tokenItems, ← readingCaptures_skipped, laterCaptures,
        ← readingCaptures_append]
      simp [readingCaptures, Piece.isCaptured]
    · change text = _ at split
      rw [split]
      simp [readingText]

/-- The items of parts read their pieces. -/
theorem reads_partItems {parts : List Part} (wellFormed : ∀ part ∈ parts, part.WellFormed)
    {text : Text} {parse : Captures × Text}
    (member : parse ∈ (ofSequence (parts.flatMap Part.items)).parses text) :
    Reads ((parts.flatMap Part.tokens).map fun token => token.piece) text parse := by
  induction parts generalizing text parse with
  | nil =>
      obtain rfl := List.mem_singleton.1 member
      exact ⟨[], .nil, rfl, rfl, rfl⟩
  | cons part rest inductionHypothesis =>
      obtain ⟨head, tail⟩ := List.forall_mem_cons.1 wellFormed
      cases part with
      | token single =>
          exact reads_cons
            (readsFirst_of_mem_parses (piece_ne_marker head) (filled_of_wellFormed head) member)
            (inductionHypothesis tail)
      | optional body =>
          rw [map_piece_optional]
          exact reads_optional (fun token member => (head.2 token member).2) member
            (inductionHypothesis tail)

/-- The captures of a match are those of a reading of the text. -/
theorem exists_reading_of_captures? {pattern : Pattern} {text : Text} {captures : Captures}
    (matched : pattern.expression.captures? text = some captures) :
    ∃ reading, IsReading reading ∧ reading.map Prod.fst = pattern.pieces ∧
      captures = readingCaptures reading ∧ text = readingText reading := by
  rw [captures?_eq_fullMatch?] at matched
  obtain ⟨reading, isReading, pieces, same, split⟩ :=
    reads_partItems (fun _ => wellFormed_of_mem_parts) (mem_parses_of_fullMatch? matched)
  exact ⟨reading, isReading, pieces, same, split.trans (List.append_nil _)⟩

/-- A definition matches through the expression of its pattern, whose captures go to its arguments. -/
theorem captures?_of_matchStep? {text : Text} {definition : StepDefinition} {result : MatchResult}
    (matched : matchStep? text definition = some result) :
    ∃ captures, definition.pattern.compile = .ok definition.pattern.expression ∧
      definition.pattern.expression.captures? text = some captures ∧
      result.args =
        bindCaptures definition.args (captures.map fun capture => capture.getD []) := by
  unfold matchStep? at matched
  split at matched
  · contradiction
  · rename_i expression compiled
    obtain ⟨captures, found, rfl⟩ := Option.map_eq_some_iff.1 matched
    obtain rfl : definition.pattern.expression = expression := by
      rw [compile_eq_ok (by simp [compiled])] at compiled
      exact Except.ok.inj compiled
    exact ⟨captures, compiled, found, rfl⟩

end StepGrammar
