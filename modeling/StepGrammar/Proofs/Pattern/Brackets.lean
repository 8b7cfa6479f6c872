import StepGrammar.Proofs.Pattern.Delimiters

/-!
Contract: the tokens of a pattern are well bracketed.

The markers of optional groups come in pairs, and between the two of a pair stand tokens that could
also stand alone. A group ends at the first parenthesis without a backslash before it, and its
content is scanned on its own, with other constructs to cover a backslash. Neither scan comes to an
escaped character, so the second one finds no group inside a group, although it looks for one.
-/

namespace StepGrammar

/-! ## Well-bracketed tokens -/

def Token.isMarker (token : Token) : Bool :=
  match token.piece with
  | .optionalOpen | .optionalClose => true
  | _ => false

def Token.isText (token : Token) : Bool :=
  match token.piece with
  | .text _ => true
  | _ => false

structure WellBracketed (tokens : List Token) : Prop where
  /-- The markers alternate, beginning with an opening and ending with a closing one. -/
  alternates : ∃ groups, (tokens.filter Token.isMarker).map Token.piece =
    (List.replicate groups [Piece.optionalOpen, .optionalClose]).flatten
  /-- Between an opening marker and the next closing one stands at least one token, and only tokens
  that may stand in a group. -/
  encloses : ∀ before opening body closing later,
    tokens = before ++ opening :: (body ++ closing :: later) →
    opening.piece = .optionalOpen → closing.piece = .optionalClose →
    (∀ token ∈ body, ¬token.isMarker) → body ≠ [] ∧ ∀ token ∈ body, token.piece.isInline
  /-- An anchor is the first token and a caret or the last token and a dollar sign. -/
  anchored : ∀ before anchor later, tokens = before ++ anchor :: later → anchor.piece = .anchor →
    (before = [] ∧ anchor.raw = ['^']) ∨ (later = [] ∧ anchor.raw = ['$'])
  /-- No two neighbours are both plain text. -/
  separated : tokens.IsChain fun first second => ¬(first.isText ∧ second.isText)

/-! ## Markers -/

/-- Tokens in which each group stands between its markers. -/
inductive IsBracketed : List Token → Prop
  | nil : IsBracketed []
  | single {token : Token} {later : List Token} (plain : ¬token.isMarker)
      (bracketed : IsBracketed later) : IsBracketed (token :: later)
  | group {body later : List Token} (filled : body ≠ [])
      (inline : ∀ token ∈ body, token.piece.isInline) (bracketed : IsBracketed later) :
      IsBracketed (⟨.optionalOpen, ['(']⟩ :: (body ++ ⟨.optionalClose, [')']⟩ :: later))

theorem Token.not_isMarker_of_isInline {token : Token} (inline : token.piece.isInline) :
    ¬token.isMarker := by
  obtain ⟨piece, raw⟩ := token
  cases piece with
  | optionalOpen | optionalClose => exact absurd inline Bool.false_ne_true
  | _ => exact Bool.false_ne_true

/-- An element of two lists put together stands in the first or in the second. -/
theorem exists_of_append_eq_append_cons {α : Type} {first second before later : List α}
    {element : α} (split : first ++ second = before ++ element :: later) :
    (∃ outer, first = before ++ element :: outer ∧ later = outer ++ second) ∨
      ∃ inner, second = inner ++ element :: later ∧ before = first ++ inner := by
  rcases List.append_eq_append_iff.1 split with ⟨inner, same, tail⟩ | ⟨middle, front, tail⟩
  · exact Or.inr ⟨inner, tail, same⟩
  · cases middle with
    | nil => exact Or.inr ⟨[], tail.symm, by simpa using front.symm⟩
    | cons head outer =>
        obtain ⟨rfl, rfl⟩ := List.cons_eq_cons.1 tail
        exact Or.inl ⟨outer, front, rfl⟩

/-- The first element with a property divides a list in one way only. -/
theorem eq_of_append_cons_eq {α : Type} {holds : α → Bool} {front other back rest : List α}
    {first second : α} (split : front ++ first :: back = other ++ second :: rest)
    (frontFree : ∀ element ∈ front, ¬holds element) (otherFree : ∀ element ∈ other, ¬holds element)
    (firstHolds : holds first) (secondHolds : holds second) : front = other := by
  rcases exists_of_append_eq_append_cons split with ⟨outer, rfl, -⟩ | ⟨inner, tail, rfl⟩
  · exact absurd secondHolds (frontFree second (by simp))
  · cases inner with
    | nil => rw [List.append_nil]
    | cons head inner =>
        obtain ⟨rfl, -⟩ := List.cons_eq_cons.1 tail
        exact absurd firstHolds (otherFree first (by simp))

namespace IsBracketed

variable {tokens : List Token}

theorem alternates (bracketed : IsBracketed tokens) :
    ∃ groups, (tokens.filter Token.isMarker).map Token.piece =
      (List.replicate groups [Piece.optionalOpen, .optionalClose]).flatten := by
  induction bracketed with
  | nil => exact ⟨0, rfl⟩
  | single plain _ inductionHypothesis => rwa [List.filter_cons_of_neg plain]
  | @group body later _ inline _ inductionHypothesis =>
      obtain ⟨groups, same⟩ := inductionHypothesis
      have bare : body.filter Token.isMarker = [] :=
        List.filter_eq_nil_iff.2 fun token member =>
          Token.not_isMarker_of_isInline (inline token member)
      refine ⟨groups + 1, ?_⟩
      rw [List.filter_cons_of_pos rfl, List.filter_append, bare, List.nil_append,
        List.filter_cons_of_pos rfl, List.map_cons, List.map_cons, same, List.replicate_succ]
      rfl

/-- Two markers with no other marker between them enclose the body of a group. -/
theorem encloses (bracketed : IsBracketed tokens) {before body later : List Token}
    {opening closing : Token} (split : tokens = before ++ opening :: (body ++ closing :: later))
    (opens : opening.piece = .optionalOpen) (closes : closing.piece = .optionalClose)
    (bare : ∀ token ∈ body, ¬token.isMarker) :
    body ≠ [] ∧ ∀ token ∈ body, token.piece.isInline := by
  have openingMarks : opening.isMarker := by rw [Token.isMarker, opens]
  have closingMarks : closing.isMarker := by rw [Token.isMarker, closes]
  induction bracketed generalizing before with
  | nil => simp at split
  | single plain _ inductionHypothesis =>
      rcases List.cons_eq_append_iff.1 split with ⟨-, same⟩ | ⟨front, -, rest⟩
      · obtain ⟨rfl, -⟩ := List.cons_eq_cons.1 same
        exact absurd openingMarks plain
      · exact inductionHypothesis rest
  | @group inside rest filled inline _ inductionHypothesis =>
      have insideBare (token : Token) (member : token ∈ inside) : ¬token.isMarker :=
        Token.not_isMarker_of_isInline (inline token member)
      rcases List.cons_eq_append_iff.1 split with ⟨-, same⟩ | ⟨front, -, same⟩
      · obtain ⟨-, same⟩ := List.cons_eq_cons.1 same
        obtain rfl := eq_of_append_cons_eq same bare insideBare closingMarks rfl
        exact ⟨filled, inline⟩
      · rcases exists_of_append_eq_append_cons same with ⟨outer, rfl, -⟩ | ⟨inner, tail, rfl⟩
        · exact absurd openingMarks (insideBare opening (by simp))
        · rcases List.cons_eq_append_iff.1 tail with ⟨-, same⟩ | ⟨front, -, rest⟩
          · obtain ⟨rfl, -⟩ := List.cons_eq_cons.1 same
            contradiction
          · exact inductionHypothesis rest

end IsBracketed

theorem Token.WellFormed.not_isMarker {token : Token} (wellFormed : token.WellFormed) :
    ¬token.isMarker := by
  obtain ⟨piece, raw⟩ := token
  cases piece with
  | optionalOpen | optionalClose => exact wellFormed.elim
  | _ => exact Bool.false_ne_true

theorem isBracketed_flatMap_tokens {parts : List Part}
    (wellFormed : ∀ part ∈ parts, part.WellFormed) : IsBracketed (parts.flatMap Part.tokens) := by
  induction parts with
  | nil => exact .nil
  | cons part later inductionHypothesis =>
      obtain ⟨own, others⟩ := List.forall_mem_cons.1 wellFormed
      have bracketed := inductionHypothesis others
      cases part with
      | token single => exact .single own.not_isMarker bracketed
      | optional body =>
          have inline (token : Token) (member : token ∈ body) := (own.2 token member).1
          simpa [Part.tokens] using IsBracketed.group own.1 inline bracketed

/-! ## Anchors -/

theorem Part.IsWritten.piece_ne_anchor {part : Part} {stretch behind : Text}
    (written : part.IsWritten stretch behind) {token : Token} (member : token ∈ part.tokens) :
    token.piece ≠ .anchor := by
  cases written with
  | optional =>
      simp only [Part.tokens, List.cons_append, List.mem_cons, List.mem_append, List.not_mem_nil,
        or_false] at member
      rcases member with rfl | inside | rfl
      · exact Piece.noConfusion
      · intro anchor
        have inline := (wellFormed_of_mem_groupTokens inside).1
        rw [anchor] at inline
        exact absurd inline Bool.false_ne_true
      · exact Piece.noConfusion
  | _ =>
      rw [List.mem_singleton.1 member]
      exact Piece.noConfusion

theorem piece_ne_anchor_of_mem_bodyTokens {body : Text} {token : Token}
    (member : token ∈ (bodyParts body).flatMap Part.tokens) : token.piece ≠ .anchor := by
  obtain ⟨part, partMember, own⟩ := List.mem_flatMap.1 member
  obtain ⟨span, spanMember, rfl⟩ := List.mem_map.1 partMember
  have all : ∀ span ∈ scanFrom part? none 0 body, ∀ token ∈ span.part.tokens,
      token.piece ≠ .anchor := by
    apply forall_mem_scanFrom
    · intro text nonempty token own
      rw [List.mem_singleton.1 own]
      exact Piece.noConfusion
    · intro previous suffix found recognised token own
      obtain ⟨stretch, behind, -, -, written⟩ := part?_isWritten recognised
      exact written.piece_ne_anchor own
  exact all span spanMember token own

/-- The tokens of a pattern are those of its body between anchors. -/
theorem tokens_eq (pattern : Pattern) :
    pattern.tokens =
      (anchorParts (Anchored.ofPattern pattern).opening).flatMap Part.tokens ++
        ((bodyParts (Anchored.ofPattern pattern).body).flatMap Part.tokens ++
          (anchorParts (Anchored.ofPattern pattern).closing).flatMap Part.tokens) := by
  rw [Pattern.tokens, Pattern.parts, List.flatMap_append, List.flatMap_append, List.append_assoc]

/-- An anchor among the tokens of an anchor is alone. -/
theorem eq_of_anchorTokens_eq {raw : Text} {before later : List Token} {token : Token}
    (split : (anchorParts raw).flatMap Part.tokens = before ++ token :: later) :
    before = [] ∧ later = [] ∧ token.raw = raw := by
  cases raw with
  | nil => simp [anchorParts] at split
  | cons character rest =>
      have single : [⟨.anchor, character :: rest⟩] = before ++ token :: later := split
      rcases List.singleton_eq_append_iff.1 single with ⟨rfl, same⟩ | ⟨-, same⟩
      · obtain ⟨rfl, rfl⟩ := List.cons_eq_cons.1 same
        exact ⟨rfl, rfl, rfl⟩
      · simp at same

theorem anchor_cases {pattern : Pattern} {before later : List Token} {token : Token}
    (split : pattern.tokens = before ++ token :: later) (anchor : token.piece = .anchor) :
    (before = [] ∧ token.raw = ['^']) ∨ (later = [] ∧ token.raw = ['$']) := by
  rw [tokens_eq] at split
  rcases exists_of_append_eq_append_cons split with ⟨outer, opening, -⟩ | ⟨inner, rest, -⟩
  · obtain ⟨first, -, raw⟩ := eq_of_anchorTokens_eq opening
    refine Or.inl ⟨first, ?_⟩
    rcases (divides_ofPattern pattern).opened with ⟨none, -⟩ | caret
    · simp [none, anchorParts] at opening
    · rw [raw, caret]
  · rcases exists_of_append_eq_append_cons rest with ⟨outer, body, -⟩ | ⟨front, closing, -⟩
    · have member := body ▸ List.mem_append_right inner (List.mem_cons_self (l := outer))
      exact absurd anchor (piece_ne_anchor_of_mem_bodyTokens member)
    · obtain ⟨-, last, raw⟩ := eq_of_anchorTokens_eq closing
      refine Or.inr ⟨last, ?_⟩
      rcases (divides_ofPattern pattern).closed with ⟨none, -⟩ | ⟨dollar, -⟩
      · simp [none, anchorParts] at closing
      · rw [raw, dollar]

/-! ## Neighbours -/

/-- Two tokens of which at least one is no plain text. -/
def Token.Apart (first second : Token) : Prop := ¬(first.isText ∧ second.isText)

theorem Part.IsWritten.not_isText {token : Token} {stretch behind : Text}
    (written : (Part.token token).IsWritten stretch behind) : ¬token.isText := by
  cases written with
  | _ => exact Bool.false_ne_true

theorem Part.tokens_ne_nil (part : Part) : part.tokens ≠ [] := by
  cases part with
  | token | optional => exact List.cons_ne_nil _ _

theorem isChain_groupTokens (content : Text) : (groupTokens content).IsChain Token.Apart := by
  have constructs : ∀ span ∈ scan inlineToken? content, span.isConstruct → ¬span.token.isText := by
    apply forall_mem_scanFrom
    · exact fun _ _ construct => absurd construct Bool.false_ne_true
    · intro previous text token recognised _
      obtain ⟨found, inline, rfl⟩ := Option.map_eq_some_iff.1 recognised
      obtain ⟨stretch, behind, -, -, written⟩ := inline?_isWritten inline
      exact written.not_isText
  rw [groupTokens, List.isChain_map]
  refine (isChain_scanFrom inlineToken? none 0 content).imp_of_mem_imp ?_
  rintro first second firstMember secondMember (construct | construct) ⟨firstText, secondText⟩
  · exact constructs first firstMember construct firstText
  · exact constructs second secondMember construct secondText

/-- A construct neither begins nor ends with plain text, and inside it no two neighbours are both
plain text. -/
theorem Part.IsWritten.apart {part : Part} {stretch behind : Text}
    (written : part.IsWritten stretch behind) :
    part.tokens.IsChain Token.Apart ∧ (∀ token ∈ part.tokens.head?, ¬token.isText) ∧
      ∀ token ∈ part.tokens.getLast?, ¬token.isText := by
  cases part with
  | token single =>
      have notText := written.not_isText
      refine ⟨.singleton _, ?_, ?_⟩
      · rintro token same
        rwa [← Option.mem_some.1 same]
      · rintro token same
        rwa [← Option.mem_some.1 same]
  | optional body =>
      cases written with
      | @optional content =>
          have opening : ¬Token.isText ⟨.optionalOpen, ['(']⟩ := Bool.false_ne_true
          have closing : ¬Token.isText ⟨.optionalClose, [')']⟩ := Bool.false_ne_true
          refine ⟨.cons (.append (isChain_groupTokens content) (.singleton _) ?_) ?_, ?_, ?_⟩
          · rintro _ _ token same both
            rw [← Option.mem_some.1 same] at both
            exact closing both.2
          · exact fun _ _ both => opening both.1
          · rintro token same
            rwa [← Option.mem_some.1 same]
          · rw [Part.tokens, List.getLast?_concat]
            rintro token same
            rwa [← Option.mem_some.1 same]

theorem isChain_bodyTokens (body : Text) :
    ((bodyParts body).flatMap Part.tokens).IsChain Token.Apart := by
  -- Plain text stands alone, and only constructs stand next to it.
  have constructs : ∀ span ∈ scan part? body, span.part.tokens.IsChain Token.Apart ∧
      (span.isConstruct → (∀ token ∈ span.part.tokens.head?, ¬token.isText) ∧
        ∀ token ∈ span.part.tokens.getLast?, ¬token.isText) := by
    apply forall_mem_scanFrom
    · exact fun _ _ => ⟨.singleton _, fun construct => absurd construct Bool.false_ne_true⟩
    · intro previous text found recognised
      obtain ⟨stretch, behind, -, -, written⟩ := part?_isWritten recognised
      exact ⟨written.apart.1, fun _ => written.apart.2⟩
  rw [bodyParts, List.flatMap_map, List.flatMap_def, List.isChain_flatten]
  · rw [List.forall_mem_map, List.isChain_map]
    refine ⟨fun span member => (constructs span member).1, ?_⟩
    refine (isChain_scanFrom part? none 0 body).imp_of_mem_imp ?_
    rintro first second firstMember secondMember construct left leftLast right rightFirst both
    rcases construct with construct | construct
    · exact ((constructs first firstMember).2 construct).2 left leftLast both.1
    · exact ((constructs second secondMember).2 construct).1 right rightFirst both.2
  · intro empty
    obtain ⟨span, -, same⟩ := List.mem_map.1 empty
    exact Part.tokens_ne_nil _ same

theorem not_isText_of_mem_anchorTokens {raw : Text} {token : Token}
    (member : token ∈ (anchorParts raw).flatMap Part.tokens) : ¬token.isText := by
  rw [Token.isText, piece_of_mem_anchorTokens member]
  exact Bool.false_ne_true

theorem isChain_anchorTokens (raw : Text) :
    ((anchorParts raw).flatMap Part.tokens).IsChain Token.Apart := by
  cases raw with
  | nil => exact .nil
  | cons character rest => exact .singleton _

/-- Of two neighbours among the tokens of a pattern at least one is no plain text. -/
theorem isChain_tokens (pattern : Pattern) : pattern.tokens.IsChain Token.Apart := by
  rw [tokens_eq]
  refine (isChain_anchorTokens _).append ((isChain_bodyTokens _).append (isChain_anchorTokens _) ?_)
    ?_
  · intro _ _ last first both
    exact not_isText_of_mem_anchorTokens (List.mem_of_head? first) both.2
  · intro first member _ _ both
    exact not_isText_of_mem_anchorTokens (List.mem_of_getLast? member) both.1

/-! ## Groups inside groups -/

/-- The part at the start of a text inside an optional group, where groups are looked for as well.
-/
def nestedPart? : Recogniser Part := fun _ text =>
  (escape? text).map (Found.part text) <|>
    (enum? text).map (Found.part text) <|>
    (parameter? text).map (Found.part text) <|>
    (anonymous? text).map (Found.part text) <|>
    (optionalContent? text).map optionalPart <|>
    (outline? text).map (Found.part text)

theorem advances_inlineToken? : inlineToken?.Advances := by
  intro previous text token recognised
  obtain ⟨found, inline, rfl⟩ := Option.map_eq_some_iff.1 recognised
  obtain ⟨stretch, behind, rfl, length, written⟩ := inline?_isWritten inline
  have same : found.length = stretch.length := length
  have positive := List.length_pos_of_ne_nil written.ne_nil
  rw [same, List.length_append]
  omega

/-- No group begins at a position to which the scan of the content of a group comes. -/
theorem group?_of_isAsked {content front rest : Text} (escaped : escapesParentheses none content)
    (asked : IsAsked inlineToken? content front rest) : group? rest = none := by
  cases rest with
  | nil => rfl
  | cons character rest =>
      apply group?_eq_none
      rintro rfl
      rw [asked.split] at escaped
      have backslash := getLast?_of_escapesParentheses rfl escaped
      rw [Option.or_none] at backslash
      have plain := not_isEscapable_of_isAsked_inline asked backslash
      exact absurd plain (by simp [isEscapable, escapables])

theorem nestedPart?_of_isAsked {content front rest : Text}
    (escaped : escapesParentheses none content) (asked : IsAsked inlineToken? content front rest) :
    nestedPart? front.getLast? rest =
      (inlineToken? front.getLast? rest).map (Found.map Part.token) := by
  have noGroup := group?_of_isAsked escaped asked
  have noChoice : enum? rest = none := by rw [enum?, noGroup]
  have noOptional : optionalContent? rest = none := by rw [optionalContent?, noGroup]
  simp only [nestedPart?, noChoice, noOptional, inlineToken?, inline?, Option.orElse_eq_orElse,
    Option.orElse_eq_or, Option.map_or, Option.map_map, Option.map_none, Option.none_or]
  rfl

/-- The content of a group has the same tokens if groups are looked for inside it. -/
theorem map_part_scan_nestedPart? {content : Text} (escaped : escapesParentheses none content) :
    (scan nestedPart? content).map Span.part = (groupTokens content).map Part.token := by
  have same : scan nestedPart? content = (scan inlineToken? content).map (Span.map Part.token) :=
    scan_map advances_inlineToken? fun front rest asked => nestedPart?_of_isAsked escaped asked
  rw [same, groupTokens, List.map_map, List.map_map]
  apply List.map_congr_left
  rintro (text | token) _ <;> rfl

theorem exists_content_of_mem_bodyParts {body : Text} {tokens : List Token}
    (member : .optional tokens ∈ bodyParts body) :
    ∃ content, tokens = groupTokens content ∧ escapesParentheses none content := by
  obtain ⟨span, spanMember, same⟩ := List.mem_map.1 member
  have all : ∀ span ∈ scanFrom part? none 0 body, ∀ tokens, span.part = .optional tokens →
      ∃ content, tokens = groupTokens content ∧ escapesParentheses none content := by
    apply forall_mem_scanFrom
    · exact fun _ _ _ same => Part.noConfusion same
    · intro previous suffix found recognised tokens same
      obtain ⟨stretch, behind, -, -, written⟩ := part?_isWritten recognised
      rw [show found.value = .optional tokens from same] at written
      cases written with
      | @optional content _ escaped => exact ⟨content, rfl, escaped⟩
  exact all span spanMember tokens same

/-! ## All patterns -/

/-- The tokens of a pattern are well bracketed, and the body of each optional group is what a scan
finds that would also find a group inside it. -/
theorem tokens_wellBracketed (pattern : Pattern) :
    WellBracketed pattern.tokens ∧ ∀ body, .optional body ∈ pattern.parts →
      (scan nestedPart? (body.flatMap Token.raw)).map Span.part = body.map Part.token := by
  have bracketed : IsBracketed pattern.tokens :=
    isBracketed_flatMap_tokens fun part => wellFormed_of_mem_parts
  constructor
  · exact {
      alternates := bracketed.alternates
      encloses := fun _ _ _ _ _ => bracketed.encloses
      anchored := fun _ _ _ => anchor_cases
      separated := isChain_tokens pattern }
  · intro body member
    have inBody : .optional body ∈ bodyParts (Anchored.ofPattern pattern).body := by
      simp only [Pattern.parts, List.mem_append] at member
      rcases member with (opening | inside) | closing
      · exact Part.noConfusion (mem_anchorParts opening)
      · exact inside
      · exact Part.noConfusion (mem_anchorParts closing)
    obtain ⟨content, rfl, escaped⟩ := exists_content_of_mem_bodyParts inBody
    rw [flatMap_raw_groupTokens]
    exact map_part_scan_nestedPart? escaped

/-- A pattern with a group in which a reference covers a backslash and another backslash escapes a
parenthesis. -/
def filePattern : Pattern := "^open (<a\\> \\(new) file$".toList

def fileBody : List Token :=
  [⟨.outline "a\\".toList, "<a\\>".toList⟩, ⟨.text [' '], [' ']⟩, ⟨.escape '(', "\\(".toList⟩,
    ⟨.text "new".toList, "new".toList⟩]

theorem tokens_wellBracketed_file :
    filePattern.tokens =
        [⟨.anchor, ['^']⟩, ⟨.text "open ".toList, "open ".toList⟩] ++ ⟨.optionalOpen, ['(']⟩ ::
          (fileBody ++ ⟨.optionalClose, [')']⟩ ::
            [⟨.text " file".toList, " file".toList⟩, ⟨.anchor, ['$']⟩]) ∧
      (fileBody ≠ [] ∧ ∀ token ∈ fileBody, token.piece.isInline) ∧
      Part.optional fileBody ∈ filePattern.parts ∧
      (scan nestedPart? "<a\\> \\(new".toList).map Span.part = fileBody.map Part.token := by
  have member : Part.optional fileBody ∈ filePattern.parts := by decide +kernel
  obtain ⟨bracketed, nested⟩ := tokens_wellBracketed filePattern
  refine ⟨?tokens, bracketed.encloses _ _ _ _ _ ?tokens rfl rfl (by decide), member,
    nested fileBody member⟩
  decide +kernel

end StepGrammar
