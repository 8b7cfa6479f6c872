import StepGrammar.Display
import StepGrammar.Matching
import StepGrammar.Proofs.Pattern.Tiling
import StepGrammar.Proofs.Resolve.Allocation

/-!
Contract: the anchors of a pattern carry no meaning.

The anchors are cut off before the body is scanned, so the tokens of the body are the same with and
without them. What is left to show is that no view of a pattern looks at an anchor: each view reads
the same from the tokens that are no anchors. Only the segments hold the anchors, as text.
-/

namespace StepGrammar

def Token.isInner (token : Token) : Bool := token.piece != .anchor

def innerTokens (tokens : List Token) : List Token := tokens.filter Token.isInner

theorem isInner_eq_false {token : Token} : token.isInner = false ↔ token.piece = .anchor := by
  simp [Token.isInner]

theorem innerTokens_cons_of_anchor {token : Token} (anchor : token.piece = .anchor)
    (rest : List Token) : innerTokens (token :: rest) = innerTokens rest := by
  rw [innerTokens, List.filter_cons, isInner_eq_false.2 anchor]
  rfl

theorem innerTokens_cons_of_ne {token : Token} (inner : token.piece ≠ .anchor)
    (rest : List Token) : innerTokens (token :: rest) = token :: innerTokens rest := by
  have isInner : token.isInner := by simp [Token.isInner, inner]
  exact List.filter_cons_of_pos isInner

theorem innerTokens_append (front back : List Token) :
    innerTokens (front ++ back) = innerTokens front ++ innerTokens back := by
  simp [innerTokens]

/-! ## Views of the tokens without anchors -/

theorem flatMap_innerTokens {β : Type} {view : Token → List β}
    (silent : ∀ token : Token, token.piece = .anchor → view token = []) (tokens : List Token) :
    (innerTokens tokens).flatMap view = tokens.flatMap view := by
  induction tokens with
  | nil => rfl
  | cons token rest inductionHypothesis =>
      by_cases anchor : token.piece = .anchor
      · rw [innerTokens_cons_of_anchor anchor, inductionHypothesis, List.flatMap_cons,
          silent token anchor, List.nil_append]
      · rw [innerTokens_cons_of_ne anchor, List.flatMap_cons, inductionHypothesis,
          List.flatMap_cons]

theorem tokenArguments_innerTokens (tokens : List Token) :
    tokenArguments (innerTokens tokens) = tokenArguments tokens := by
  rw [tokenArguments_eq_defineFrom, tokenArguments_eq_defineFrom,
    List.filterMap_eq_flatMap_toList, List.filterMap_eq_flatMap_toList, flatMap_innerTokens]
  intro token anchor
  rw [anchor]
  rfl

theorem endsInTable_innerTokens (tokens : List Token) :
    endsInTable (innerTokens tokens) = endsInTable tokens := by
  have twice : (innerTokens tokens).filter Token.isInner = tokens.filter Token.isInner := by
    rw [innerTokens, List.filter_filter]
    simp only [Bool.and_self]
  change ((innerTokens tokens).filter Token.isInner).getLast?.any _ = _
  rw [twice]
  rfl

theorem filter_isTable_innerTokens (tokens : List Token) :
    (innerTokens tokens).filter (fun token => token.piece.isTable) =
      tokens.filter fun token => token.piece.isTable := by
  rw [innerTokens, List.filter_filter]
  apply List.filter_congr
  intro token member
  cases inner : token.isInner with
  | true => rw [Bool.and_true]
  | false =>
      rw [isInner_eq_false.1 inner]
      rfl

/-- Anchors take no number away from the arguments. -/
theorem flatMap_labelFrom_innerTokens {β : Type} {view : LabelledToken → List β}
    (silent : ∀ token : Token, token.piece = .anchor → view ⟨token, none⟩ = []) (index : Nat)
    (tokens : List Token) :
    (labelFrom index (innerTokens tokens)).flatMap view =
      (labelFrom index tokens).flatMap view := by
  induction tokens generalizing index with
  | nil => rfl
  | cons token rest inductionHypothesis =>
      by_cases anchor : token.piece = .anchor
      · have undeclared : token.piece.declaration? = none := by
          rw [anchor]
          rfl
        rw [innerTokens_cons_of_anchor anchor, inductionHypothesis, labelFrom, undeclared,
          List.flatMap_cons, silent token anchor, List.nil_append]
      · rw [innerTokens_cons_of_ne anchor, labelFrom, labelFrom]
        cases token.piece.declaration? with
        | none => simp only [List.flatMap_cons, inductionHypothesis]
        | some declaration => simp only [List.flatMap_cons, inductionHypothesis]

def piecesOf (tokens : List Token) : List Piece := tokens.map fun token => token.piece

theorem countP_piecesOf_innerTokens (type : ParameterType) (tokens : List Token) :
    (piecesOf (innerTokens tokens)).countP (Piece.isParameter type) =
      (piecesOf tokens).countP (Piece.isParameter type) := by
  induction tokens with
  | nil => rfl
  | cons token rest inductionHypothesis =>
      by_cases anchor : token.piece = .anchor
      · rw [innerTokens_cons_of_anchor anchor, inductionHypothesis, piecesOf, piecesOf,
          List.map_cons, anchor]
        exact (List.countP_cons_of_neg Bool.false_ne_true).symm
      · rw [innerTokens_cons_of_ne anchor]
        simp only [piecesOf, List.map_cons, List.countP_cons] at inductionHypothesis ⊢
        rw [inductionHypothesis]

theorem takes_innerTokens (piece : Piece) (tokens : List Token) (values : List ConcreteArg) :
    piece.takes (piecesOf (innerTokens tokens)) values = piece.takes (piecesOf tokens) values := by
  funext arg
  cases piece with
  | anonymous => simp only [Piece.takes, isSpare, countP_piecesOf_innerTokens]
  | _ => rfl

/-- Anchors take no value and write nothing. -/
theorem resolvePieces_innerTokens (tokens : List Token) (values : List ConcreteArg) :
    resolvePieces (piecesOf (innerTokens tokens))
        ((allocate (piecesOf (innerTokens tokens)) values).map fun arg =>
          arg.map fun taken => taken.value) =
      resolvePieces (piecesOf tokens)
        ((allocate (piecesOf tokens) values).map fun arg => arg.map fun taken => taken.value) := by
  induction tokens generalizing values with
  | nil => rfl
  | cons token rest inductionHypothesis =>
      by_cases anchor : token.piece = .anchor
      · have uncaptured : ¬Piece.anchor.isCaptured := Bool.false_ne_true
        rw [innerTokens_cons_of_anchor anchor, inductionHypothesis, piecesOf, piecesOf,
          List.map_cons, anchor, allocate_of_not_isCaptured uncaptured]
        rfl
      · -- What a piece takes depends on the parameters behind it, and no anchor is one.
        rw [innerTokens_cons_of_ne anchor]
        change resolvePieces (token.piece :: piecesOf (innerTokens rest))
            ((allocate (token.piece :: piecesOf (innerTokens rest)) values).map _) =
          resolvePieces (token.piece :: piecesOf rest)
            ((allocate (token.piece :: piecesOf rest) values).map _)
        rw [allocate, allocate, takes_innerTokens]
        change Piece.resolve _ token.piece ++ resolvePieces _ _ =
          Piece.resolve _ token.piece ++ resolvePieces _ _
        rw [inductionHypothesis]

/-! ## Patterns that mean the same -/

/-- What it is for two patterns to mean the same: they declare the same arguments, accept the same
texts with the same values, resolve alike and are shown alike. -/
structure SameMeaning (first second : Pattern) : Prop where
  arguments : first.arguments = second.arguments
  source : first.source = second.source
  display : first.display = second.display
  resolve : ∀ values, first.resolve values = second.resolve values
  matched : ∀ text id keyword,
    (matchStep? text (.ofPattern id first keyword)).map MatchResult.args =
      (matchStep? text (.ofPattern id second keyword)).map MatchResult.args

variable {first second : Pattern}

theorem arguments_of_innerTokens (same : innerTokens first.tokens = innerTokens second.tokens) :
    first.arguments = second.arguments := by
  simp only [Pattern.arguments]
  rw [← endsInTable_innerTokens, ← filter_isTable_innerTokens,
    ← tokenArguments_innerTokens first.tokens, same, endsInTable_innerTokens,
    filter_isTable_innerTokens, tokenArguments_innerTokens]

theorem source_of_innerTokens (same : innerTokens first.tokens = innerTokens second.tokens) :
    first.source = second.source := by
  have silent : ∀ token : Token, token.piece = .anchor → token.piece.fragment = [] := by
    intro token anchor
    rw [anchor]
    rfl
  rw [Pattern.source, Pattern.source, ← flatMap_innerTokens silent, same,
    flatMap_innerTokens silent]

theorem display_of_innerTokens (same : innerTokens first.tokens = innerTokens second.tokens) :
    first.display = second.display := by
  have agree {β : Type} {view : LabelledToken → List β}
      (silent : ∀ token : Token, token.piece = .anchor → view ⟨token, none⟩ = []) :
      (labelFrom 0 first.tokens).flatMap view = (labelFrom 0 second.tokens).flatMap view := by
    rw [← flatMap_labelFrom_innerTokens silent, same, flatMap_labelFrom_innerTokens silent]
  simp only [Pattern.display, List.filterMap_eq_flatMap_toList]
  congr 1
  · apply agree
    intro token anchor
    simp only [LabelledToken.markup, anchor]
  · apply agree
    intro token anchor
    simp only [LabelledToken.plain, anchor]
  · exact agree fun token anchor => rfl

theorem matched_of_arguments (arguments : first.arguments = second.arguments)
    (source : first.source = second.source) (text id : Text) (keyword : StepKeyword) :
    (matchStep? text (.ofPattern id first keyword)).map MatchResult.args =
      (matchStep? text (.ofPattern id second keyword)).map MatchResult.args := by
  have compile : first.compile = second.compile := by
    rw [Pattern.compile, source, Pattern.compile]
  simp only [matchStep?, StepDefinition.ofPattern, compile, arguments]
  cases second.compile with
  | error refused => rfl
  | ok expression =>
      simp only [Option.map_map]
      rfl

theorem sameMeaning_of_innerTokens (same : innerTokens first.tokens = innerTokens second.tokens) :
    SameMeaning first second where
  arguments := arguments_of_innerTokens same
  source := source_of_innerTokens same
  display := display_of_innerTokens same
  resolve values := by
    have resolved := resolvePieces_innerTokens first.tokens values
    rw [same, resolvePieces_innerTokens] at resolved
    exact resolved.symm
  matched := matched_of_arguments (arguments_of_innerTokens same) (source_of_innerTokens same)

/-! ## Segments -/

namespace PatternSegment

/-- Puts text behind segments, joining it to a text segment that comes last. -/
def appendText (value : Text) : List PatternSegment → List PatternSegment
  | [] => [ofText value]
  | [last] =>
    if last.kind = .text then [ofText (last.value ++ value)] else [last, ofText value]
  | first :: second :: rest => first :: appendText value (second :: rest)

/-- Segments with text added at their ends, where there is any. -/
def surround (opening closing : Text) (segments : List PatternSegment) : List PatternSegment :=
  let closed := if closing = [] then segments else appendText closing segments
  if opening = [] then closed else consText opening closed

theorem appendText_ofArg (value raw : Text) (definition : ArgumentDefinition)
    (segments : List PatternSegment) :
    appendText value (ofArg raw definition :: segments) =
      ofArg raw definition :: appendText value segments := by
  cases segments with
  | nil => simp [appendText, ofArg]
  | cons first rest => rfl

theorem appendText_consText (value raw : Text) (segments : List PatternSegment) :
    appendText value (consText raw segments) = consText raw (appendText value segments) := by
  match segments with
  | [] => simp [appendText, consText, ofText]
  | [last] =>
      by_cases isText : last.kind = .text
      · simp [appendText, consText, ofText, isText]
      · simp [appendText, consText, isText]
  | first :: second :: rest =>
      by_cases isText : first.kind = .text
      · simp [appendText, consText, isText]
      · simp [appendText, consText, isText]

end PatternSegment

theorem segmentsFrom_append_anchor (caller : List ArgumentDefinition) (index : Nat)
    (tokens : List Token) (raw : Text) :
    segmentsFrom caller index (tokens ++ [⟨.anchor, raw⟩]) =
      PatternSegment.appendText raw (segmentsFrom caller index tokens) := by
  induction tokens generalizing index with
  | nil => rfl
  | cons token rest inductionHypothesis =>
      rw [List.cons_append, segmentsFrom, segmentsFrom]
      split
      · rw [inductionHypothesis, PatternSegment.appendText_ofArg]
      · split
        · rw [inductionHypothesis, PatternSegment.appendText_ofArg]
        · rw [inductionHypothesis, PatternSegment.appendText_consText]

/-! ## Adding anchors -/

def anchorTokens (raw : Text) : List Token := (anchorParts raw).flatMap Part.tokens

variable {pattern opening closing : Text}

/-- Anchors around a pattern without anchors are cut off again. -/
theorem ofPattern_anchored (noCaret : pattern.head? ≠ some '^')
    (noDollar : endsInDollar pattern = false) (noBackslash : pattern.getLast? ≠ some '\\')
    (opens : opening = [] ∨ opening = ['^']) (closes : closing = [] ∨ closing = ['$']) :
    Anchored.ofPattern (opening ++ pattern ++ closing) = ⟨opening, pattern, closing⟩ := by
  apply ofPattern_eq_iff.2
  refine ⟨(List.append_assoc ..).symm, ?_, ?_⟩
  · rcases opens with rfl | rfl
    · refine Or.inl ⟨rfl, ?_⟩
      rw [List.nil_append, List.head?_append]
      cases pattern with
      | nil => rcases closes with rfl | rfl <;> simp
      | cons character rest => exact noCaret
    · exact Or.inr rfl
  · rcases closes with rfl | rfl
    · refine Or.inl ⟨rfl, fun front ends => ?_⟩
      by_contra unescaped
      exact Bool.eq_false_iff.1 noDollar (endsInDollar_iff.2 ⟨front, ends, unescaped⟩)
    · exact Or.inr ⟨rfl, noBackslash⟩

theorem tokens_anchored (noCaret : pattern.head? ≠ some '^')
    (noDollar : endsInDollar pattern = false) (noBackslash : pattern.getLast? ≠ some '\\')
    (opens : opening = [] ∨ opening = ['^']) (closes : closing = [] ∨ closing = ['$']) :
    Pattern.tokens (opening ++ pattern ++ closing) =
      anchorTokens opening ++ Pattern.tokens pattern ++ anchorTokens closing := by
  have bare := ofPattern_anchored noCaret noDollar noBackslash (Or.inl rfl) (Or.inl rfl)
  rw [List.nil_append, List.append_nil] at bare
  have anchored := ofPattern_anchored noCaret noDollar noBackslash opens closes
  simp only [Pattern.tokens, Pattern.parts, bare, anchored, List.flatMap_append]
  simp [anchorTokens, anchorParts]

theorem innerTokens_anchorTokens (raw : Text) : innerTokens (anchorTokens raw) = [] := by
  rw [innerTokens, List.filter_eq_nil_iff]
  intro token member
  rw [isInner_eq_false.2 (piece_of_mem_anchorTokens member)]
  exact Bool.false_ne_true

theorem segmentsFrom_anchored (caller : List ArgumentDefinition) (tokens : List Token)
    (opening closing : Text) :
    segmentsFrom caller 0 (anchorTokens opening ++ tokens ++ anchorTokens closing) =
      PatternSegment.surround opening closing (segmentsFrom caller 0 tokens) := by
  have closed : segmentsFrom caller 0 (tokens ++ anchorTokens closing) =
      if closing = [] then segmentsFrom caller 0 tokens
      else PatternSegment.appendText closing (segmentsFrom caller 0 tokens) := by
    cases closing with
    | nil => rw [if_pos rfl, anchorTokens, anchorParts]; simp
    | cons first rest =>
        rw [if_neg (List.cons_ne_nil _ _)]
        exact segmentsFrom_append_anchor caller 0 tokens (first :: rest)
  rw [List.append_assoc, PatternSegment.surround, ← closed]
  cases opening with
  | nil => rfl
  | cons first rest => rfl

/-- Anchors carry no meaning: a pattern with anchors means what it means without them, and its
segments are those of the pattern with the anchors added as text at the ends. -/
theorem anchors_carry_no_meaning (noCaret : pattern.head? ≠ some '^')
    (noDollar : endsInDollar pattern = false) (noBackslash : pattern.getLast? ≠ some '\\')
    (opens : opening = [] ∨ opening = ['^']) (closes : closing = [] ∨ closing = ['$']) :
    SameMeaning (opening ++ pattern ++ closing) pattern ∧
      ∀ caller, Pattern.segments (opening ++ pattern ++ closing) caller =
        PatternSegment.surround opening closing (Pattern.segments pattern caller) := by
  have tokens := tokens_anchored noCaret noDollar noBackslash opens closes
  have same : innerTokens (Pattern.tokens (opening ++ pattern ++ closing)) =
      innerTokens (Pattern.tokens pattern) := by
    rw [tokens, innerTokens_append, innerTokens_append, innerTokens_anchorTokens,
      innerTokens_anchorTokens, List.nil_append, List.append_nil]
  refine ⟨sameMeaning_of_innerTokens same, ?_⟩
  intro caller
  have sameEnd : endsInTable (Pattern.tokens (opening ++ pattern ++ closing)) =
      endsInTable (Pattern.tokens pattern) := by
    rw [← endsInTable_innerTokens, same, endsInTable_innerTokens]
  simp only [Pattern.segments, sameEnd]
  rw [tokens]
  exact segmentsFrom_anchored _ _ opening closing

/-- A pattern that begins with alternatives and ends in a table with a dollar sign before it. -/
def pricesPattern : Pattern := "log/sign (Ann|Bob) in at <row> \\$ (name, price) :".toList

theorem anchors_carry_no_meaning_prices :
    SameMeaning (['^'] ++ pricesPattern ++ ['$']) pricesPattern ∧
      (Pattern.segments (['^'] ++ pricesPattern ++ ['$']) []).map PatternSegment.value =
        ["^log/sign ".toList, "(Ann|Bob)".toList, " in at ".toList, "<row>".toList,
          " \\$ (name, price) :$".toList] := by
  have noCaret : pricesPattern.head? ≠ some '^' := by decide +kernel
  have noDollar : endsInDollar pricesPattern = false := by decide +kernel
  have noBackslash : pricesPattern.getLast? ≠ some '\\' := by decide +kernel
  obtain ⟨sameMeaning, segments⟩ := anchors_carry_no_meaning noCaret noDollar noBackslash
    (Or.inr (Eq.refl ['^'])) (Or.inr (Eq.refl ['$']))
  refine ⟨sameMeaning, ?_⟩
  rw [segments []]
  decide +kernel

end StepGrammar
