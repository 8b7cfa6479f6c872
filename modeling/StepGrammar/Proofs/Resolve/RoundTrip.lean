import StepGrammar.Matching
import StepGrammar.Proofs.Regex.FirstMatch
import StepGrammar.Proofs.Resolve.Allocation
import StepGrammar.Proofs.Text.Blank

/-!
Contract: values that are put into a pattern come back from the match.

The values of a pattern can be told apart when each stands before a blank or at the end and has
blanks only between quotes. `Fits` says so piece by piece. The preferred match then captures each
written value whole, and reading the capture undoes the writing.
-/

namespace StepGrammar

open Regex

/-! ## Patterns and values -/

/-- Whether the text of a piece is fixed or the value of a choice or of a typed parameter. -/
def Piece.isDeterminate : Piece → Bool
  | .anchor | .text _ | .escape _ | .outline _ | .enum _ | .parameter _ _ => true
  | _ => false

/-- Whether a value ends before the given pieces: they begin with a blank or stand for nothing. -/
def endsValue : List Piece → Bool
  | .text (character :: _) :: _ => isBlank character
  | later => later.all fun piece => piece == .anchor

def separatesValues : List Piece → Bool
  | [] => true
  | piece :: later => (!piece.isCaptured || endsValue later) && separatesValues later

def Piece.hasBlankFreeValues : Piece → Bool
  | .enum values => values.all Text.isBlankFree
  | _ => true

/-- Whether a parameter of the type gives a value back that was written for it. -/
def ParameterType.Admits : ParameterType → Text → Prop
  | .string, value =>
    ('"' ∉ value ∨ '\x27' ∉ value ∨ Text.isBlankFree value) ∧
      (isOutlineReference value → Text.isBlankFree value)
  | .int, value => IsInteger value
  | .float, value => IsDecimal value
  | .word, value | .any, value => IsBare value

def ArgumentDefinition.Admits (definition : ArgumentDefinition) (value : Text) : Prop :=
  match definition.type with
  | .parameter type => type.Admits value
  | .enum => value ∈ definition.listedValues
  | .table => False

def Piece.Admits : Piece → Text → Prop
  | .enum values, value => value ∈ values ∧ value ≠ [] ∧ ∀ other ∈ values, Text.isBlankFree other
  | .parameter type _, value => type.Admits value
  | _, _ => False

/-- Values for pieces of which each gives its own back and ends before the next piece. -/
inductive Fits : List Piece → List Text → Prop
  | nil : Fits [] []
  | fixed {piece later values} (determinate : piece.isDeterminate) (uncaptured : ¬piece.isCaptured)
      (rest : Fits later values) : Fits (piece :: later) values
  | value {piece later value values} (admits : piece.Admits value) (ends : endsValue later)
      (rest : Fits later values) : Fits (piece :: later) (value :: values)

/-! ## What is captured -/

theorem isBlankFree_of_isBare {text : Text} (bare : IsBare text) : Text.isBlankFree text := by
  simpa [Text.isBlankFree] using bare.2

theorem isBare_of_isBlankFree {text : Text} (nonempty : text ≠ []) (free : Text.isBlankFree text) :
    IsBare text :=
  ⟨nonempty, by simpa [Text.isBlankFree] using free⟩

theorem isBlankFree_of_isDigit {text : Text} (digits : ∀ character ∈ text, isDigit character) :
    Text.isBlankFree text := by
  rw [Text.isBlankFree, List.all_eq_true]
  intro character member
  rw [isBlank_of_isDigit (digits character member)]
  rfl

theorem isBlankFree_of_isInteger {text : Text} (integer : IsInteger text) :
    Text.isBlankFree text := by
  obtain ⟨sign, digits, rfl, signed, -, all⟩ := integer
  rw [Text.isBlankFree_append, isBlankFree_of_isDigit all, Bool.and_true]
  rcases signed with rfl | rfl <;> rfl

theorem isBlankFree_of_isDecimal {text : Text} (decimal : IsDecimal text) :
    Text.isBlankFree text := by
  obtain ⟨sign, whole, point, places, rfl, signed, wholeAll, pointed, -, placesAll⟩ := decimal
  rw [Text.isBlankFree_append, Text.isBlankFree_append, Text.isBlankFree_append,
    isBlankFree_of_isDigit wholeAll, isBlankFree_of_isDigit placesAll]
  rcases signed with rfl | rfl <;> rcases pointed with rfl | rfl <;> rfl

variable {next : Regex} {rest : Text} {later : Captures}

/-- A group of texts without blanks captures the stretch in front of a blank. -/
theorem fullMatch?_capture_of_blankFree {body : Regex} {piece : Text} (noGroups : body.groups = 0)
    (described : body.Describes piece)
    (allFree : ∀ text, body.Describes text → Text.isBlankFree text)
    (restStarts : Text.startsBlank rest)
    (nextStarts : ∀ text, next.Describes text → Text.startsBlank text)
    (matched : next.fullMatch? rest = some later) :
    (append (.capture body) next).fullMatch? (piece ++ rest) = some (some piece :: later) := by
  apply fullMatch?_capture_of_unique noGroups described matched
  intro front back same frontDescribed backDescribed
  exact Text.eq_of_append_of_isBlankFree same (allFree _ described) (allFree _ frontDescribed)
    restStarts (nextStarts _ backDescribed)

/-! ## Strings -/

/-- A string is read as quoted in double quotes, then in single quotes, and then as a bare text. -/
theorem parses_string (text : Text) :
    ParameterType.string.expression.parses text =
      (ofSequence [.one (.only '"'), .star (.except '"'), .one (.only '"')]).parses text ++
        ((ofSequence
            [.one (.only '\x27'), .star (.except '\x27'), .one (.only '\x27')]).parses text ++
          (ofSequence [.plus .nonBlank]).parses text) := by
  rw [ParameterType.expression, ofChoice, ofAlternatives, ofAlternatives, ofAlternatives,
    parses_either rfl rfl, parses_either rfl rfl]

/-- A string in quotes that it does not hold itself is captured with its quotes. -/
theorem fullMatch?_string_of_quoted {quote : Char} (isQuote : quote = '"' ∨ quote = '\x27')
    {content : Text} (free : quote ∉ content) (matched : next.fullMatch? rest = some later) :
    (append (.capture ParameterType.string.expression) next).fullMatch?
        (quote :: (content ++ [quote]) ++ rest) =
      some (some (quote :: (content ++ [quote])) :: later) := by
  obtain ⟨others, first⟩ := parses_quoted free rest
  obtain ⟨all, preferred⟩ : ∃ all, ParameterType.string.expression.parses
      (quote :: (content ++ [quote]) ++ rest) = ([], rest) :: all := by
    rw [parses_string, List.cons_append, List.append_assoc, List.singleton_append]
    rcases isQuote with rfl | rfl
    · rw [first]
      exact ⟨_, rfl⟩
    · rw [parses_quoted_of_ne (by decide), first]
      exact ⟨_, rfl⟩
  exact fullMatch?_capture_of_preferred preferred matched

/-- A quoted stretch at the start of a quoted text whose content holds the quote ends inside. -/
theorem isBlankFree_of_isQuoted {quote : Char} {value rest front back : Text}
    (same : quote :: (value ++ [quote]) ++ rest = front ++ back) (holds : quote ∈ value)
    (valueFree : Text.isBlankFree value) (quoteFree : isBlank quote = false)
    (quoted : IsQuoted quote front) : Text.isBlankFree front := by
  obtain ⟨content, rfl, free⟩ := quoted
  have tails : value ++ (quote :: rest) = content ++ (quote :: back) := by simpa using same
  rcases List.append_eq_append_iff.1 tails with ⟨middle, rfl, -⟩ | ⟨middle, rfl, -⟩
  · exact absurd (List.mem_append_left _ holds) free
  · rw [Text.isBlankFree_append, Bool.and_eq_true] at valueFree
    simp [Text.isBlankFree, quoteFree] at valueFree ⊢
    exact valueFree.1

theorem not_isQuoted_of_ne {quote character : Char} (different : character ≠ quote)
    {text front back : Text} (same : character :: text = front ++ back) :
    ¬IsQuoted quote front := by
  intro quoted
  rcases quoted with ⟨content, rfl, -⟩
  exact different (List.cons_eq_cons.1 same).1

/-- A string without blanks is captured when its quoted beginnings hold no blanks either. -/
theorem fullMatch?_string_of_bare {piece : Text} (bare : IsBare piece)
    (quotedFree : ∀ front back, piece ++ rest = front ++ back →
      IsQuoted '"' front ∨ IsQuoted '\x27' front → Text.isBlankFree front)
    (restStarts : Text.startsBlank rest)
    (nextStarts : ∀ text, next.Describes text → Text.startsBlank text)
    (matched : next.fullMatch? rest = some later) :
    (append (.capture ParameterType.string.expression) next).fullMatch? (piece ++ rest) =
      some (some piece :: later) := by
  have described : ParameterType.string.expression.Describes piece :=
    describes_typeExpression.2 (Or.inr (Or.inr bare))
  apply fullMatch?_capture_of_unique rfl described matched
  intro front back same frontDescribed backDescribed
  have frontFree : Text.isBlankFree front := by
    rcases describes_typeExpression.1 frontDescribed with double | single | bareFront
    · exact quotedFree front back same (Or.inl double)
    · exact quotedFree front back same (Or.inr single)
    · exact isBlankFree_of_isBare bareFront
  exact Text.eq_of_append_of_isBlankFree same (isBlankFree_of_isBare bare) frontFree restStarts
    (nextStarts _ backDescribed)

/-- A reference is written as a string without quotes. -/
theorem written_string_of_outline {value : Text} (outline : isOutlineReference value) :
    ParameterType.string.written value = value := by
  simp [ParameterType.written, outline]

theorem written_string_of_not_outline {value : Text} (notOutline : ¬isOutlineReference value) :
    ParameterType.string.written value = quote value := by
  simp [ParameterType.written, notOutline]

/-- A written string is captured whole. -/
theorem fullMatch?_string {value : Text} (admits : ParameterType.string.Admits value)
    (restStarts : Text.startsBlank rest)
    (nextStarts : ∀ text, next.Describes text → Text.startsBlank text)
    (matched : next.fullMatch? rest = some later) :
    (append (.capture ParameterType.string.expression) next).fullMatch?
        (ParameterType.string.written value ++ rest) =
      some (some (ParameterType.string.written value) :: later) := by
  obtain ⟨quotable, outlineFree⟩ := admits
  by_cases outline : isOutlineReference value
  · -- A reference is written bare, and no quoted stretch begins with its bracket.
    rw [written_string_of_outline outline]
    obtain ⟨name, rfl⟩ := exists_of_isOutlineReference outline
    have bare : IsBare (outlineReference name) :=
      isBare_of_isBlankFree (List.cons_ne_nil _ _) (outlineFree outline)
    apply fullMatch?_string_of_bare bare _ restStarts nextStarts matched
    intro front back same quoted
    rcases quoted with double | single
    · exact absurd double (not_isQuoted_of_ne (by decide) same)
    · exact absurd single (not_isQuoted_of_ne (by decide) same)
  · rw [written_string_of_not_outline outline, quote]
    by_cases double : '"' ∈ value
    · by_cases single : '\x27' ∈ value
      · -- Both quotes occur, so there are no blanks to keep together.
        have valueFree : Text.isBlankFree value :=
          (quotable.resolve_left (not_not.2 double)).resolve_left (not_not.2 single)
        have bare : IsBare ('"' :: (value ++ ['"'])) := by
          apply isBare_of_isBlankFree (List.cons_ne_nil _ _)
          rw [← List.singleton_append, Text.isBlankFree_append, Text.isBlankFree_append, valueFree]
          rfl
        rw [if_neg (by simp [single])]
        apply fullMatch?_string_of_bare bare _ restStarts nextStarts matched
        intro front back same quoted
        rcases quoted with doubleFront | singleFront
        · exact isBlankFree_of_isQuoted same double valueFree (by decide) doubleFront
        · exact absurd singleFront (not_isQuoted_of_ne (by decide) same)
      · rw [if_pos (by simp [double, single])]
        exact fullMatch?_string_of_quoted (Or.inr rfl) single matched
    · rw [if_neg (by simp [double])]
      exact fullMatch?_string_of_quoted (Or.inl rfl) double matched

theorem stripQuote?_quoted (quote : Char) (content : Text) :
    stripQuote? quote (quote :: (content ++ [quote])) = some content := by
  simp [stripQuote?]

theorem unquote_written (value : Text) : unquote (ParameterType.string.written value) = value := by
  by_cases outline : isOutlineReference value
  · rw [written_string_of_outline outline]
    obtain ⟨name, rfl⟩ := exists_of_isOutlineReference outline
    simp [unquote, stripQuote?, outlineReference]
  · rw [written_string_of_not_outline outline, quote, unquote]
    split
    · have notDouble : stripQuote? '"' ('\x27' :: (value ++ ['\x27'])) = none := by
        simp [stripQuote?]
      rw [List.cons_append, notDouble, stripQuote?_quoted]
      rfl
    · rw [List.cons_append, stripQuote?_quoted]
      rfl

/-! ## The match of one piece -/

theorem fullMatch?_literalItems (text : Text) (items : List Regex) (rest : Text) :
    (ofSequence (literalItems text ++ items)).fullMatch? (text ++ rest) =
      (ofSequence items).fullMatch? rest := by
  induction text with
  | nil => rfl
  | cons character text inductionHypothesis =>
      rw [← inductionHypothesis]
      exact fullMatch?_only_append character _ _

theorem fullMatch?_fixed {piece : Piece} (determinate : piece.isDeterminate)
    (uncaptured : ¬piece.isCaptured) (items : List Regex) (rest : Text) :
    (ofSequence (piece.items ++ items)).fullMatch? (piece.resolve none ++ rest) =
      (ofSequence items).fullMatch? rest := by
  cases piece with
  | anchor => rfl
  | text characters => exact fullMatch?_literalItems characters items rest
  | escape character => exact fullMatch?_literalItems [character] items rest
  | outline name => exact fullMatch?_literalItems (outlineReference name) items rest
  | enum | parameter | anonymous => exact absurd rfl uncaptured
  | _ => exact absurd determinate Bool.false_ne_true

theorem isCaptured_of_admits {piece : Piece} {value : Text} (admits : piece.Admits value) :
    piece.isCaptured := by
  cases piece with
  | enum | parameter => rfl
  | _ => exact admits.elim

/-- A value that a piece gives back is captured as it is written. -/
theorem fullMatch?_value {piece : Piece} {value : Text} (admits : piece.Admits value)
    {items : List Regex} (restStarts : Text.startsBlank rest)
    (nextStarts : ∀ text, (ofSequence items).Describes text → Text.startsBlank text)
    (matched : (ofSequence items).fullMatch? rest = some later) :
    (ofSequence (piece.items ++ items)).fullMatch? (piece.resolve (some value) ++ rest) =
      some (some (piece.resolve (some value)) :: later) := by
  cases piece with
  | enum values =>
      obtain ⟨member, nonempty, allFree⟩ := admits
      have written : (Piece.enum values).resolve (some value) = value := by
        cases value with
        | nil => exact absurd rfl nonempty
        | cons first others => rfl
      have listed : values ≠ [] := List.ne_nil_of_mem member
      rw [written]
      apply fullMatch?_capture_of_blankFree (groups_ofTexts values) _ _ restStarts nextStarts
        matched
      · exact (describes_ofTexts listed).2 member
      · intro text described
        exact allFree text ((describes_ofTexts listed).1 described)
  | parameter type name =>
      by_cases isString : type = .string
      · obtain rfl := isString
        exact fullMatch?_string admits restStarts nextStarts matched
      · have written : (Piece.parameter type name).resolve (some value) = value := by
          simp [Piece.resolve, ParameterType.written, isString]
        rw [written]
        apply fullMatch?_capture_of_blankFree (groups_expression_eq_zero type) _ _ restStarts
          nextStarts matched
        · apply describes_typeExpression.2
          cases type with
          | string => exact absurd rfl isString
          | _ => exact admits
        · intro text described
          have accepted := describes_typeExpression.1 described
          cases type with
          | string => exact absurd rfl isString
          | int => exact isBlankFree_of_isInteger accepted
          | float => exact isBlankFree_of_isDecimal accepted
          | word | any => exact isBlankFree_of_isBare accepted
  | _ => exact admits.elim

/-- A declared value is read back from what was written for it. -/
theorem readCapture_resolve {piece : Piece} {value : Text} (admits : piece.Admits value)
    {declaration : Declaration} (declares : piece.inlineDeclaration? = some declaration) :
    declaration.type.isCaptured ∧
      declaration.type.readCapture (piece.resolve (some value)) = value := by
  cases piece with
  | enum values =>
      obtain rfl := Option.some.inj declares
      refine ⟨rfl, ?_⟩
      cases value with
      | nil => exact absurd rfl admits.2.1
      | cons first others => rfl
  | parameter type name =>
      obtain rfl := Option.some.inj declares
      refine ⟨rfl, ?_⟩
      by_cases isString : type = .string
      · obtain rfl := isString
        exact unquote_written value
      · simp [ArgType.readCapture, Piece.resolve, ParameterType.written, isString]
  | _ => exact admits.elim

/-! ## The match of a whole pattern -/

theorem endsValue_cases {later : List Piece} (ends : endsValue later) :
    (∃ character characters others,
      later = .text (character :: characters) :: others ∧ isBlank character) ∨
        ∀ piece ∈ later, piece = .anchor := by
  unfold endsValue at ends
  split at ends
  · exact Or.inl ⟨_, _, _, rfl, ends⟩
  · exact Or.inr (by simpa using ends)

theorem startsBlank_substitute {later : List Piece} (ends : endsValue later) (values : List Text) :
    Text.startsBlank (substitute later values) := by
  rcases endsValue_cases ends with ⟨character, characters, others, rfl, blank⟩ | anchors
  · simp [substitute, Piece.isCaptured, Piece.resolve, Text.startsBlank, blank]
  · have nothing : substitute later values = [] := by
      clear ends
      induction later with
      | nil => rfl
      | cons piece later inductionHypothesis =>
          obtain ⟨rfl, laterAnchors⟩ := List.forall_mem_cons.1 anchors
          exact inductionHypothesis laterAnchors
    rw [nothing]
    rfl

theorem startsBlank_of_describes {later : List Piece} (ends : endsValue later) {text : Text}
    (described : (ofSequence (later.flatMap Piece.items)).Describes text) :
    Text.startsBlank text := by
  rcases endsValue_cases ends with ⟨character, characters, others, rfl, blank⟩ | anchors
  · rw [List.flatMap_cons] at described
    obtain ⟨back, rfl, -⟩ := describes_literalItems.1 described
    simp [Text.startsBlank, blank]
  · have nothing : later.flatMap Piece.items = [] := by
      rw [List.flatMap_eq_nil_iff]
      intro piece member
      rw [anchors piece member]
      rfl
    rw [nothing] at described
    rw [show text = [] from described]
    rfl

def writtenValues (pieces : List Piece) (values : List Text) : List Text :=
  List.zipWith (fun piece value => piece.resolve (some value)) (pieces.filter Piece.isCaptured)
    values

theorem writtenValues_fixed {piece : Piece} (uncaptured : ¬piece.isCaptured) (later : List Piece)
    (values : List Text) : writtenValues (piece :: later) values = writtenValues later values := by
  rw [writtenValues, List.filter_cons_of_neg uncaptured, writtenValues]

theorem writtenValues_value {piece : Piece} (captured : piece.isCaptured) (later : List Piece)
    (value : Text) (values : List Text) :
    writtenValues (piece :: later) (value :: values) =
      piece.resolve (some value) :: writtenValues later values := by
  rw [writtenValues, List.filter_cons_of_pos captured, List.zipWith_cons_cons, writtenValues]

variable {pieces : List Piece} {values : List Text}

/-- The preferred match of the resolved text captures the written values. -/
theorem fullMatch?_of_fits (fits : Fits pieces values) :
    (ofSequence (pieces.flatMap Piece.items)).fullMatch? (substitute pieces values) =
      some ((writtenValues pieces values).map some) := by
  -- What the later pieces match decides where a value ends, so the list is read from its end.
  induction fits with
  | nil => rfl
  | @fixed piece later values determinate uncaptured rest inductionHypothesis =>
      rw [List.flatMap_cons, substitute, if_neg uncaptured,
        fullMatch?_fixed determinate uncaptured, inductionHypothesis,
        writtenValues_fixed uncaptured]
  | @value piece later value values admits ends rest inductionHypothesis =>
      have captured := isCaptured_of_admits admits
      have nextStarts : ∀ text, (ofSequence (later.flatMap Piece.items)).Describes text →
          Text.startsBlank text := fun text => startsBlank_of_describes ends
      rw [List.flatMap_cons, substitute, if_pos captured, List.head?_cons, List.tail_cons,
        fullMatch?_value admits (startsBlank_substitute ends values) nextStarts
          inductionHypothesis, writtenValues_value captured, List.map_cons]

/-- Binding the written values gives every argument its value. -/
theorem bindCaptures_of_fits (fits : Fits pieces values) (index : Nat) :
    bindCaptures (defineFrom index (pieces.filterMap Piece.inlineDeclaration?))
        (writtenValues pieces values) =
      List.zipWith ConcreteArg.mk (defineFrom index (pieces.filterMap Piece.inlineDeclaration?))
        values := by
  induction fits generalizing index with
  | nil => rfl
  | @fixed piece later values determinate uncaptured rest inductionHypothesis =>
      have undeclared : piece.inlineDeclaration? = none := by
        rw [← Option.not_isSome_iff_eq_none, inlineDeclaration?_isSome]
        exact uncaptured
      rw [List.filterMap_cons_none undeclared, writtenValues_fixed uncaptured, inductionHypothesis]
  | @value piece later value values admits ends rest inductionHypothesis =>
      have captured := isCaptured_of_admits admits
      obtain ⟨declaration, declares⟩ : ∃ declaration,
          piece.inlineDeclaration? = some declaration := by
        rw [← Option.isSome_iff_exists, inlineDeclaration?_isSome]
        exact captured
      obtain ⟨typeCaptured, read⟩ := readCapture_resolve admits declares
      have own : (declaration.define index).type = declaration.type := rfl
      rw [List.filterMap_cons_some declares, defineFrom, writtenValues_value captured,
        List.zipWith_cons_cons, bindCaptures, own, if_pos typeCaptured, List.headD_cons, read,
        List.tail_cons, inductionHypothesis]

/-- The conditions on the arguments of a pattern hold of its pieces. -/
theorem fits_of_admits (determinate : ∀ piece ∈ pieces, piece.isDeterminate)
    (separated : separatesValues pieces) (blankFree : ∀ piece ∈ pieces, piece.hasBlankFreeValues)
    (filled : ∀ listed, .enum listed ∈ pieces → [] ∉ listed) (index : Nat)
    (admits : List.Forall₂ ArgumentDefinition.Admits
      (defineFrom index (pieces.filterMap Piece.inlineDeclaration?)) values) :
    Fits pieces values := by
  induction pieces generalizing index values with
  | nil =>
      obtain rfl := List.forall₂_nil_left_iff.1 admits
      exact .nil
  | cons piece later inductionHypothesis =>
      rw [separatesValues, Bool.and_eq_true] at separated
      have pieceDeterminate := (List.forall_mem_cons.1 determinate).1
      have laterDeterminate := (List.forall_mem_cons.1 determinate).2
      have pieceFree := (List.forall_mem_cons.1 blankFree).1
      have laterFree := (List.forall_mem_cons.1 blankFree).2
      have laterFilled : ∀ listed, .enum listed ∈ later → [] ∉ listed := fun listed member =>
        filled listed (List.mem_cons_of_mem _ member)
      cases declares : piece.inlineDeclaration? with
      | none =>
          have uncaptured : ¬piece.isCaptured := by
            rw [← inlineDeclaration?_isSome, declares]
            exact Bool.false_ne_true
          rw [List.filterMap_cons_none declares] at admits
          exact .fixed pieceDeterminate uncaptured
            (inductionHypothesis laterDeterminate separated.2 laterFree laterFilled index admits)
      | some declaration =>
          have captured : piece.isCaptured := by
            rw [← inlineDeclaration?_isSome, declares]
            rfl
          rw [List.filterMap_cons_some declares, defineFrom] at admits
          obtain ⟨value, others, own, laterAdmits, rfl⟩ := List.forall₂_cons_left_iff.1 admits
          have ends : endsValue later := by simpa [captured] using separated.1
          refine .value ?_ ends (inductionHypothesis laterDeterminate separated.2 laterFree
            laterFilled (index + 1) laterAdmits)
          cases piece with
          | enum listed =>
              obtain rfl := Option.some.inj declares
              refine ⟨own, ?_, by simpa [Piece.hasBlankFreeValues] using pieceFree⟩
              intro empty
              exact filled listed (by simp) (empty ▸ own)
          | parameter type name =>
              obtain rfl := Option.some.inj declares
              exact own
          | anonymous => exact absurd pieceDeterminate Bool.false_ne_true
          | _ => exact absurd captured Bool.false_ne_true

/-- Parts without optional groups contribute the items of their pieces. -/
theorem items_of_ungrouped {parts : List Part}
    (ungrouped : ∀ token ∈ parts.flatMap Part.tokens, token.piece ≠ .optionalOpen) :
    parts.flatMap Part.items =
      ((parts.flatMap Part.tokens).map fun token => token.piece).flatMap Piece.items := by
  induction parts with
  | nil => rfl
  | cons part rest inductionHypothesis =>
      rw [List.flatMap_cons, List.forall_mem_append] at ungrouped
      rw [List.flatMap_cons, List.flatMap_cons, List.map_append, List.flatMap_append,
        inductionHypothesis ungrouped.2]
      cases part with
      | token single => simp [Part.items, Part.tokens]
      | optional body =>
          exact absurd rfl (ungrouped.1 ⟨.optionalOpen, ['(']⟩ (by simp [Part.tokens]))

theorem expression_eq_items {pattern : Pattern} (ungrouped : .optionalOpen ∉ pattern.pieces) :
    pattern.expression = ofSequence (pattern.pieces.flatMap Piece.items) := by
  have tokensUngrouped : ∀ token ∈ pattern.parts.flatMap Part.tokens,
      token.piece ≠ .optionalOpen := fun token member opening =>
    ungrouped (List.mem_map.2 ⟨token, member, opening⟩)
  rw [Pattern.expression, items_of_ungrouped tokensUngrouped]
  rfl

theorem items_of_determinate {parts : List Part}
    (determinate : ∀ token ∈ parts.flatMap Part.tokens, token.piece.isDeterminate) :
    parts.flatMap Part.items =
      ((parts.flatMap Part.tokens).map fun token => token.piece).flatMap Piece.items := by
  apply items_of_ungrouped
  intro token member opening
  have fixed := determinate token member
  rw [opening] at fixed
  exact absurd fixed Bool.false_ne_true

theorem arguments_eq_defineFrom {pattern : Pattern}
    (tableFree : endsInTable pattern.tokens = false) :
    pattern.arguments = defineFrom 0 (pattern.pieces.filterMap Piece.inlineDeclaration?) := by
  rw [(arguments_of_not_endsInTable tableFree).1, inlineArguments_eq, Pattern.pieces,
    List.filterMap_map]
  rfl

theorem filled_of_mem_pieces {pattern : Pattern} {listed : List Text}
    (member : .enum listed ∈ pattern.pieces) : listed ≠ [] ∧ [] ∉ listed := by
  obtain ⟨token, tokenMember, piece⟩ := List.mem_map.1 member
  exact (isLexed_of_mem_tokens tokenMember).values_filled piece

theorem not_endsInTable_of_not_isTable {pattern : Pattern}
    (tableFree : ∀ piece ∈ pattern.pieces, ¬piece.isTable) :
    endsInTable pattern.tokens = false := by
  rw [Bool.eq_false_iff]
  intro ends
  obtain ⟨inner, token, closing, split, -, isTable, -⟩ := tokens_of_endsInTable ends
  have member : token.piece ∈ pattern.pieces := by
    rw [Pattern.pieces, split]
    simp
  exact tableFree token.piece member isTable

theorem not_endsInTable_of_determinate {pattern : Pattern}
    (determinate : ∀ piece ∈ pattern.pieces, piece.isDeterminate) :
    endsInTable pattern.tokens = false := by
  apply not_endsInTable_of_not_isTable
  intro piece member isTable
  have fixed := determinate piece member
  cases piece with
  | table columns => exact absurd fixed Bool.false_ne_true
  | _ => exact absurd isTable Bool.false_ne_true

/-- Matching the text that a pattern resolves to gives the values back, when every value ends
before a blank or at the end of the pattern and no value can be read in another way. -/
theorem match_resolve {pattern : Pattern} {values : List Text} (id : Text) (keyword : StepKeyword)
    (determinate : ∀ piece ∈ pattern.pieces, piece.isDeterminate)
    (separated : separatesValues pattern.pieces)
    (blankFree : ∀ piece ∈ pattern.pieces, piece.hasBlankFreeValues)
    (admits : List.Forall₂ ArgumentDefinition.Admits pattern.arguments values)
    (accepted : pattern.compile ≠ .error (.tooLarge sizeLimit)) :
    ∃ result,
      matchStep? (pattern.resolve (pattern.argumentsWith values)) (.ofPattern id pattern keyword) =
        some result ∧
      result.args = pattern.argumentsWith values ∧ result.values = values := by
  have tableFree := not_endsInTable_of_determinate determinate
  have defined := arguments_eq_defineFrom tableFree
  have sameLength := admits.length_eq
  have fits : Fits pattern.pieces values := by
    rw [defined] at admits
    exact fits_of_admits determinate separated blankFree
      (fun _ member => (filled_of_mem_pieces member).2) 0 admits
  have bound := bindCaptures_of_fits fits 0
  rw [← defined] at bound
  have compiled := compile_eq_ok accepted
  have expression : pattern.expression = ofSequence (pattern.pieces.flatMap Piece.items) := by
    rw [Pattern.expression, items_of_determinate]
    · rfl
    · intro token member
      exact determinate token.piece (List.mem_map_of_mem member)
  have captures : pattern.expression.captures? (pattern.resolve (pattern.argumentsWith values)) =
      some ((writtenValues pattern.pieces values).map some) := by
    rw [captures?_eq_fullMatch?, expression, resolve_argumentsWith tableFree sameLength,
      fullMatch?_of_fits fits]
  have unwrapped : ((writtenValues pattern.pieces values).map some).map
      (fun capture => capture.getD []) = writtenValues pattern.pieces values := by
    rw [List.map_map]
    exact List.map_id _
  refine ⟨⟨pattern, pattern.argumentsWith values, some id⟩, ?_, rfl, ?_⟩
  · simp only [matchStep?, StepDefinition.ofPattern, compiled, captures, Option.map_some, unwrapped,
      bound]
    rfl
  · exact map_value_argumentsWith sameLength.ge

/-- A pattern of a sale with a parameter for each kind of value. -/
def salePattern : Pattern :=
  "^Alice (buys|sells) {int} of {string} at {float} \\(<date>\\) {string} to {word}$".toList

/-- The values of a sale, of which one holds blanks and quotes and one is a reference. -/
def saleValues : List Text :=
  ["sells".toList, "-7".toList, "a \"red\" pen".toList, ".5".toList, "<note>".toList, "Bob".toList]

theorem match_resolve_sale :
    ∃ result,
      matchStep? (salePattern.resolve (salePattern.argumentsWith saleValues))
        (.ofPattern [] salePattern .whenStep) = some result ∧
      result.args = salePattern.argumentsWith saleValues ∧ result.values = saleValues := by
  have arguments : salePattern.arguments =
      [{ name := "arg0".toList, type := .enum, enumValues := some ["buys".toList, "sells".toList] },
       { name := "arg1".toList, type := .parameter .int },
       { name := "arg2".toList, type := .parameter .string },
       { name := "arg3".toList, type := .parameter .float },
       { name := "arg4".toList, type := .parameter .string },
       { name := "arg5".toList, type := .parameter .word }] := by decide +kernel
  have readable : (∀ piece ∈ salePattern.pieces, piece.isDeterminate) ∧
      separatesValues salePattern.pieces ∧
        ∀ piece ∈ salePattern.pieces, piece.hasBlankFreeValues := by decide +kernel
  apply match_resolve [] .whenStep readable.1 readable.2.1 readable.2.2
  · rw [arguments]
    refine .cons ?_ (.cons ?_ (.cons ?_ (.cons ?_ (.cons ?_ (.cons ?_ .nil)))))
    · exact List.mem_cons_of_mem _ List.mem_cons_self
    · exact ⟨['-'], ['7'], rfl, Or.inr rfl, by simp, List.forall_mem_singleton.2 (by decide)⟩
    · exact ⟨Or.inr (Or.inl (by decide)), by decide⟩
    · exact ⟨[], [], ['.'], ['5'], rfl, Or.inl rfl, by simp, Or.inr rfl, by simp,
        List.forall_mem_singleton.2 (by decide)⟩
    · exact ⟨Or.inl (by decide), by decide⟩
    · exact isBare_of_isBlankFree (by simp) (by decide)
  · rw [compile_eq, if_pos (by decide +kernel)]
    simp

end StepGrammar
