import StepGrammar.Proofs.Pattern.Tiling

/-!
Contract: which parentheses of a pattern delimit a construct.

The lexer claims an escape before anything else, so no construct begins behind a backslash, and a
group ends at the first parenthesis without one. A column list ends at its first parenthesis of any
kind: a backslash before it is the last character of the last column. There alone an escaped
parenthesis delimits.
-/

namespace StepGrammar

/-! ## Delimiters -/

inductive Enclosure where
  | optional
  | choice
  | columns
deriving DecidableEq, Repr

inductive Side where
  | opening
  | closing
deriving DecidableEq, Repr

def Side.parenthesis : Side → Char
  | .opening => '('
  | .closing => ')'

/-- A parenthesis that delimits a construct, with the text before it. -/
structure Delimiter where
  enclosure : Enclosure
  side : Side
  before : Text
deriving DecidableEq, Repr

/-- Whether a backslash stands directly before a delimiter. -/
def Delimiter.isEscaped (delimiter : Delimiter) : Bool := delimiter.before.getLast? == some '\\'

def Delimiter.behind (front : Text) (delimiter : Delimiter) : Delimiter :=
  { delimiter with before := front ++ delimiter.before }

def Token.listing? (token : Token) : Option Text :=
  match token.piece with
  | .table _ => columnList? token.raw
  | _ => none

/-- The delimiters of a token, with the text that it has before them. -/
def Token.delimiters (token : Token) : List Delimiter :=
  match token.piece with
  | .optionalOpen => [⟨.optional, .opening, []⟩]
  | .optionalClose => [⟨.optional, .closing, []⟩]
  | .enum _ => [⟨.choice, .opening, []⟩, ⟨.choice, .closing, token.raw.dropLast⟩]
  | .table _ =>
    match token.listing? with
    | none => []
    | some content =>
      let blanks := token.raw.takeWhile isBlank
      [⟨.columns, .opening, blanks⟩, ⟨.columns, .closing, blanks ++ '(' :: content⟩]
  | _ => []

/-- The delimiters of tokens that stand behind a text. -/
def delimitersFrom (front : Text) : List Token → List Delimiter
  | [] => []
  | token :: later =>
    token.delimiters.map (Delimiter.behind front) ++ delimitersFrom (front ++ token.raw) later

def Pattern.delimiters (pattern : Pattern) : List Delimiter := delimitersFrom [] pattern.tokens

theorem delimitersFrom_append (front : Text) (first second : List Token) :
    delimitersFrom front (first ++ second) =
      delimitersFrom front first ++ delimitersFrom (front ++ first.flatMap Token.raw) second := by
  induction first generalizing front with
  | nil => simp [delimitersFrom]
  | cons token first inductionHypothesis =>
      simp only [List.cons_append, delimitersFrom, inductionHypothesis, List.flatMap_cons,
        List.append_assoc]

theorem delimitersFrom_eq_nil {tokens : List Token} (bare : ∀ token ∈ tokens, token.delimiters = [])
    (front : Text) : delimitersFrom front tokens = [] := by
  induction tokens generalizing front with
  | nil => rfl
  | cons token later inductionHypothesis =>
      rw [delimitersFrom, bare token List.mem_cons_self,
        inductionHypothesis fun other member => bare other (List.mem_cons_of_mem _ member)]
      rfl

/-- A delimiter belongs to one of the tokens. -/
theorem mem_delimitersFrom_iff {front : Text} {tokens : List Token} {delimiter : Delimiter} :
    delimiter ∈ delimitersFrom front tokens ↔ ∃ before token later,
      tokens = before ++ token :: later ∧ ∃ own ∈ token.delimiters,
        delimiter = own.behind (front ++ before.flatMap Token.raw) := by
  constructor
  · intro member
    induction tokens generalizing front with
    | nil => contradiction
    | cons token later inductionHypothesis =>
        rcases List.mem_append.1 member with here | there
        · obtain ⟨own, ownMember, rfl⟩ := List.mem_map.1 here
          exact ⟨[], token, later, rfl, own, ownMember, by simp⟩
        · obtain ⟨before, other, rest, rfl, own, ownMember, rfl⟩ := inductionHypothesis there
          exact ⟨token :: before, other, rest, rfl, own, ownMember, by simp⟩
  · rintro ⟨before, token, later, rfl, own, ownMember, rfl⟩
    rw [delimitersFrom_append, delimitersFrom]
    apply List.mem_append_right
    apply List.mem_append_left
    exact List.mem_map_of_mem ownMember

/-! ## The delimiters of a part -/

/-- Whether a delimiter is the parenthesis behind the text before it, escaped only at the end of a
column list. -/
structure Delimiter.StandsIn (text : Text) (delimiter : Delimiter) : Prop where
  placed : ∃ later, text = delimiter.before ++ delimiter.side.parenthesis :: later
  escaped : delimiter.isEscaped → delimiter.enclosure = .columns ∧ delimiter.side = .closing

theorem Delimiter.StandsIn.append {text : Text} {delimiter : Delimiter}
    (stands : delimiter.StandsIn text) (later : Text) : delimiter.StandsIn (text ++ later) := by
  obtain ⟨⟨rest, split⟩, escaped⟩ := stands
  exact ⟨⟨rest ++ later, by simp [split]⟩, escaped⟩

theorem isEscaped_iff_getLast? {delimiter : Delimiter} :
    delimiter.isEscaped ↔ delimiter.before.getLast? = some '\\' := beq_iff_eq

theorem delimiters_of_isInline {token : Token} (inline : token.piece.isInline) :
    token.delimiters = [] := by
  obtain ⟨piece, raw⟩ := token
  cases piece with
  | text | escape | parameter | anonymous | outline => rfl
  | _ => exact absurd inline Bool.false_ne_true

theorem delimitersFrom_singleton (front : Text) (token : Token) :
    delimitersFrom front [token] = token.delimiters.map (Delimiter.behind front) :=
  List.append_nil _

section Part

variable {part : Part} {front stretch behind content : Text} {delimiter : Delimiter}

/-- The parentheses of a column list. -/
theorem delimiters_columnSuffix {blanks gap trailing : Text} (leading : blanks.all isBlank)
    (allowed : content.all isColumnCharacter) (between : gap.all isBlank)
    (trails : trailing.all isBlank) :
    Token.delimiters
        ⟨.table (listedColumns content), columnSuffix blanks content gap trailing⟩ =
      [⟨.columns, .opening, blanks⟩, ⟨.columns, .closing, blanks ++ '(' :: content⟩] := by
  have listed : Token.listing?
      ⟨.table (listedColumns content), columnSuffix blanks content gap trailing⟩ = some content :=
    columnList?_eq_some_iff.2 ⟨blanks, gap, trailing, rfl, leading, allowed, between, trails⟩
  have visible : ¬isBlank '(' := by decide
  have leads : (columnSuffix blanks content gap trailing).takeWhile isBlank = blanks := by
    rw [columnSuffix, List.takeWhile_append_of_pos (List.all_eq_true.1 leading),
      List.takeWhile_cons_of_neg visible, List.append_nil]
  simp only [Token.delimiters, listed, leads]

/-- The parentheses of a choice. -/
theorem delimiters_parenthesised (values : List Text) (content : Text) :
    Token.delimiters ⟨.enum values, parenthesised content⟩ =
      [⟨.choice, .opening, []⟩, ⟨.choice, .closing, '(' :: content⟩] := by
  have inner : (parenthesised content).dropLast = '(' :: content := by
    rw [parenthesised, ← List.cons_append, List.dropLast_concat]
  simp only [Token.delimiters, inner]

/-- The parentheses of an optional group. -/
theorem delimitersFrom_optional (front content : Text) :
    delimitersFrom front (Part.optional (groupTokens content)).tokens =
      [⟨.optional, .opening, front⟩, ⟨.optional, .closing, front ++ '(' :: content⟩] := by
  have inside : delimitersFrom (front ++ ['(']) (groupTokens content) = [] :=
    delimitersFrom_eq_nil
      (fun token member => delimiters_of_isInline (wellFormed_of_mem_groupTokens member).1) _
  rw [Part.tokens, List.cons_append, delimitersFrom, delimitersFrom_append, inside,
    flatMap_raw_groupTokens, delimitersFrom_singleton]
  simp [Token.delimiters, Delimiter.behind]

theorem standsIn_of_clear {text later : Text}
    (placed : text = delimiter.before ++ delimiter.side.parenthesis :: later)
    (clear : delimiter.before.getLast? ≠ some '\\') : delimiter.StandsIn text :=
  ⟨⟨later, placed⟩, fun escaped => absurd (isEscaped_iff_getLast?.1 escaped) clear⟩

theorem getLast?_opened_iff :
    (front ++ '(' :: content).getLast? = some '\\' ↔ content.getLast? = some '\\' := by
  rw [List.getLast?_append_of_ne_nil _ (List.cons_ne_nil _ _), List.getLast?_cons]
  cases content.getLast? <;> simp

/-- The two parentheses of a group stand around its content. -/
theorem standsIn_group {enclosure : Enclosure} (clear : front.getLast? ≠ some '\\')
    (escaped : escapesParentheses none content)
    (member : delimiter ∈
      [⟨enclosure, .opening, front⟩, ⟨enclosure, .closing, front ++ '(' :: content⟩]) :
    delimiter.StandsIn (front ++ parenthesised content) := by
  simp only [List.mem_cons, List.not_mem_nil, or_false] at member
  rcases member with rfl | rfl
  · exact standsIn_of_clear rfl clear
  · have closed : front ++ parenthesised content = (front ++ '(' :: content) ++ [')'] := by
      simp [parenthesised]
    refine standsIn_of_clear closed ?_
    have last := getLast?_ne_of_escapesParentheses escaped
    rw [Option.or_none] at last
    exact fun backslash => last (getLast?_opened_iff.1 backslash)

/-- The delimiters of a part stand in the stretch that it covers. -/
theorem Part.IsWritten.standsIn (written : part.IsWritten stretch behind)
    (clear : stretch.head? = some '(' → front.getLast? ≠ some '\\')
    (member : delimiter ∈ delimitersFrom front part.tokens) :
    delimiter.StandsIn (front ++ stretch) := by
  cases written with
  | @columns blanks content gap trailing leading allowed between trails =>
      rw [Part.tokens, delimitersFrom_singleton,
        delimiters_columnSuffix leading allowed between trails] at member
      simp only [List.map_cons, List.map_nil, List.mem_cons, List.not_mem_nil, or_false] at member
      rcases member with rfl | rfl
      · refine standsIn_of_clear (List.append_assoc _ _ _).symm ?_
        intro backslash
        change (front ++ blanks).getLast? = some '\\' at backslash
        cases blanks with
        | nil => exact clear rfl (by simpa using backslash)
        | cons first others =>
            rw [List.getLast?_append_of_ne_nil _ (List.cons_ne_nil _ _)] at backslash
            exact Text.notMem_of_all leading (by decide) (List.mem_of_getLast? backslash)
      · refine ⟨⟨gap ++ ':' :: trailing, ?_⟩, fun _ => ⟨rfl, rfl⟩⟩
        simp [Delimiter.behind, columnSuffix, Side.parenthesis]
  | @colon trailing trails =>
      have visible : isBlank ':' = false := by decide
      simp [Part.tokens, delimitersFrom, Token.delimiters, Token.listing?, columnList?,
        Text.trimStart, visible] at member
  | @enum content _ escaped =>
      rw [Part.tokens, delimitersFrom_singleton, delimiters_parenthesised] at member
      apply standsIn_group (clear rfl) escaped
      simpa [Delimiter.behind] using member
  | @optional content _ escaped =>
      rw [delimitersFrom_optional] at member
      exact standsIn_group (clear rfl) escaped member
  | _ => contradiction

end Part

/-! ## The delimiters of a pattern -/

theorem delimitersFrom_anchorParts (front raw : Text) :
    delimitersFrom front ((anchorParts raw).flatMap Part.tokens) = [] := by
  apply delimitersFrom_eq_nil
  intro token member
  rw [Token.delimiters, piece_of_mem_anchorTokens member]

/-- A delimiter belongs to a construct, and it stands behind what the spans before it cover. -/
theorem exists_construct_of_mem_delimitersFrom {spans : List (Span Part)} {front : Text}
    {delimiter : Delimiter}
    (member : delimiter ∈ delimitersFrom front ((spans.map Span.part).flatMap Part.tokens)) :
    ∃ before part later, spans = before ++ .construct part :: later ∧
      delimiter ∈ delimitersFrom (front ++ before.flatMap (Span.covered Part.raw)) part.tokens := by
  induction spans generalizing front with
  | nil => contradiction
  | cons span later inductionHypothesis =>
      rw [List.map_cons, List.flatMap_cons, delimitersFrom_append, List.mem_append] at member
      rcases member with here | there
      · cases span with
        | plain text => contradiction
        | construct part =>
            refine ⟨[], part, later, rfl, ?_⟩
            rwa [List.flatMap_nil, List.append_nil]
      · obtain ⟨before, part, rest, rfl, inside⟩ := inductionHypothesis there
        refine ⟨span :: before, part, rest, rfl, ?_⟩
        rw [List.flatMap_cons, ← raw_part, ← List.append_assoc]
        exact inside

/-- Every delimiter is a parenthesis of the pattern, and only the closing one of a column list can
have a backslash directly before it. -/
theorem standsIn_of_mem_delimiters {pattern : Pattern} {delimiter : Delimiter}
    (member : delimiter ∈ pattern.delimiters) : delimiter.StandsIn pattern := by
  obtain ⟨whole, anchor, -⟩ := divides_ofPattern pattern
  have opened : ((anchorParts (Anchored.ofPattern pattern).opening).flatMap Part.tokens).flatMap
      Token.raw = (Anchored.ofPattern pattern).opening := by
    rw [List.flatMap_assoc]
    exact flatMap_raw_anchorParts _
  rw [Pattern.delimiters, Pattern.tokens, Pattern.parts, List.flatMap_append, List.flatMap_append,
    delimitersFrom_append, delimitersFrom_append, delimitersFrom_anchorParts,
    delimitersFrom_anchorParts, List.nil_append, List.append_nil, List.nil_append, opened] at member
  generalize (Anchored.ofPattern pattern).opening = opening at *
  obtain ⟨before, part, later, split, inside⟩ := exists_construct_of_mem_delimitersFrom member
  obtain ⟨stretch, behind, asked, written⟩ := exists_isWritten_of_scan split
  -- Nothing begins behind a backslash, neither in the body nor behind the anchor.
  have clear : stretch.head? = some '(' →
      (opening ++ before.flatMap (Span.covered Part.raw)).getLast? ≠ some '\\' := by
    intro opens backslash
    obtain ⟨rest, rfl⟩ := List.head?_eq_some_iff.1 opens
    rw [List.getLast?_append] at backslash
    cases last : (before.flatMap (Span.covered Part.raw)).getLast? with
    | none =>
        rw [last, Option.none_or] at backslash
        rcases anchor with ⟨rfl, -⟩ | rfl <;> exact absurd backslash (by decide)
    | some character =>
        rw [last, Option.some_or] at backslash
        have plain := not_isEscapable_of_isAsked asked (last.trans backslash)
        exact absurd plain (by simp [isEscapable, escapables])
  have stands := (written.standsIn clear inside).append
    (behind ++ (Anchored.ofPattern pattern).closing)
  rw [asked.split] at whole
  simp only [List.append_assoc] at whole stands
  rwa [whole] at stands

theorem closing_mem_delimiters_iff {token : Token} {before : Text} :
    ⟨.columns, .closing, before⟩ ∈ token.delimiters ↔
      ∃ content, token.listing? = some content ∧
        before = token.raw.takeWhile isBlank ++ '(' :: content := by
  obtain ⟨piece, raw⟩ := token
  cases piece with
  | table columns =>
      cases listed : columnList? raw <;> simp [Token.delimiters, Token.listing?, listed]
  | _ => simp [Token.delimiters, Token.listing?]

/-- The delimiters of a pattern are parentheses without a backslash directly before them, with one
exception: a column list whose content ends in a backslash is closed by an escaped parenthesis. -/
theorem escaped_delimiter_iff (pattern : Pattern) :
    (∀ delimiter ∈ pattern.delimiters, delimiter.StandsIn pattern) ∧
      ((∃ delimiter ∈ pattern.delimiters, delimiter.isEscaped) ↔
        ∃ token ∈ pattern.tokens, ∃ content, token.listing? = some content ∧
          content.getLast? = some '\\') := by
  refine ⟨fun delimiter => standsIn_of_mem_delimiters, ?_, ?_⟩
  · rintro ⟨⟨enclosure, side, before⟩, member, escaped⟩
    obtain ⟨rfl, rfl⟩ := (standsIn_of_mem_delimiters member).escaped escaped
    obtain ⟨earlier, token, later, split, ⟨enclosure, side, own⟩, ownMember, same⟩ :=
      mem_delimitersFrom_iff.1 member
    rw [Delimiter.behind, Delimiter.mk.injEq] at same
    obtain ⟨rfl, rfl, rfl⟩ := same
    obtain ⟨content, listed, rfl⟩ := closing_mem_delimiters_iff.1 ownMember
    rw [isEscaped_iff_getLast?, ← List.append_assoc, getLast?_opened_iff] at escaped
    exact ⟨token, by simp [split], content, listed, escaped⟩
  · rintro ⟨token, member, content, listed, backslash⟩
    obtain ⟨earlier, later, split⟩ := List.append_of_mem member
    have own := closing_mem_delimiters_iff.2 ⟨content, listed, rfl⟩
    refine ⟨_, mem_delimitersFrom_iff.2 ⟨earlier, token, later, split, _, own, rfl⟩, ?_⟩
    rw [isEscaped_iff_getLast?, Delimiter.behind, ← List.append_assoc, getLast?_opened_iff]
    exact backslash

/-- A pattern with escaped parentheses before and inside each kind of group. -/
def ticketPattern : Pattern := "\\(new\\) (VIP \\(gold|day) ticket( \\)x) (name, seat) :".toList

theorem escaped_delimiter_iff_ticket :
    ⟨.choice, .closing, "\\(new\\) (VIP \\(gold|day".toList⟩ ∈ ticketPattern.delimiters ∧
      (∃ later, ticketPattern = "\\(new\\) (VIP \\(gold|day".toList ++ ')' :: later) ∧
      ¬∃ delimiter ∈ ticketPattern.delimiters, delimiter.isEscaped := by
  have member : ⟨.choice, .closing, "\\(new\\) (VIP \\(gold|day".toList⟩ ∈
      ticketPattern.delimiters := by decide +kernel
  have unescaped : ¬∃ token ∈ ticketPattern.tokens, ∃ content, token.listing? = some content ∧
      content.getLast? = some '\\' := by
    rintro ⟨token, tokenMember, content, listed, backslash⟩
    have allClear : ∀ token ∈ ticketPattern.tokens,
        (token.listing?.bind List.getLast?) ≠ some '\\' := by decide +kernel
    exact allClear token tokenMember (by rw [listed]; exact backslash)
  exact ⟨member, ((escaped_delimiter_iff ticketPattern).1 _ member).placed,
    mt (escaped_delimiter_iff ticketPattern).2.1 unescaped⟩

/-- The last column takes the backslash and leaves its parenthesis to close the list. -/
theorem columns_closed_by_escape :
    ¬∀ delimiter ∈ Pattern.delimiters "(a\\):".toList, delimiter.isEscaped = false := by
  decide +kernel

end StepGrammar
