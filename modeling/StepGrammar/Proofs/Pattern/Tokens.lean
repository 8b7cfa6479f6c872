import StepGrammar.Pattern.Arguments
import StepGrammar.Proofs.Text.Scan

/-!
Contract: what the tokens of every pattern satisfy.

`wellFormed_of_mem_parts` collects what each recogniser guarantees about the tokens that it finds,
and `tokens_split` says that a table stands nowhere but behind all other tokens of the body.
-/

namespace StepGrammar

/-! ## Outline references -/

/-- A text begins with an outline reference exactly when it begins with a name between angle
brackets. The name holds no such bracket and does not begin with a blank. -/
theorem outlineName?_eq_some_iff {text name : Text} :
    outlineName? text = some name ↔
      ∃ rest, text = outlineReference name ++ rest ∧ name.all isOutlineCharacter ∧
        name.head?.any fun first => !isBlank first := by
  constructor
  · intro found
    unfold outlineName? at found
    split at found
    case h_2 => simp at found
    case h_1 opening first others =>
      split at found
      case isFalse => simp at found
      case isTrue allowed =>
        split at found
        case h_1 => simp at found
        case h_2 closing rest after =>
          split at found
          case isFalse => simp at found
          case isTrue closes =>
            simp only [Bool.and_eq_true, beq_iff_eq] at allowed closes
            rcases allowed with ⟨⟨rfl, bracketFree⟩, notBlank⟩
            obtain rfl := closes
            obtain rfl := Option.some.inj found
            refine ⟨rest, ?_, ?_, by simpa using notBlank⟩
            · have split := List.takeWhile_append_dropWhile (p := isOutlineCharacter) (l := others)
              rw [after] at split
              simpa [outlineReference] using split.symm
            · rw [List.all_cons, bracketFree, List.all_takeWhile, Bool.and_self]
  · intro reference
    rcases reference with ⟨rest, rfl, bracketFree, notBlank⟩
    cases name with
    | nil => simp at notBlank
    | cons first others =>
        simp only [List.all_cons, Bool.and_eq_true, List.head?_cons, Option.any_some]
          at bracketFree notBlank
        rcases bracketFree with ⟨firstAllowed, othersAllowed⟩
        have stops : isOutlineCharacter '>' = false := by decide
        have taken : (others ++ '>' :: rest).takeWhile isOutlineCharacter = others := by
          rw [List.takeWhile_append_of_pos (by simpa using othersAllowed)]
          simp [stops]
        have dropped : (others ++ '>' :: rest).dropWhile isOutlineCharacter = '>' :: rest := by
          rw [List.dropWhile_append_of_pos (by simpa using othersAllowed)]
          simp [stops]
        simp [outlineReference, outlineName?, firstAllowed, notBlank, taken, dropped]

theorem isOutlineReference_outlineReference {text name : Text}
    (found : outlineName? text = some name) : isOutlineReference (outlineReference name) := by
  rcases outlineName?_eq_some_iff.1 found with ⟨_, -, bracketFree, notBlank⟩
  have whole : outlineName? (outlineReference name) = some name :=
    outlineName?_eq_some_iff.2 ⟨[], by simp, bracketFree, notBlank⟩
  simp [isOutlineReference, whole]

theorem exists_of_isOutlineReference {text : Text} (outline : isOutlineReference text) :
    ∃ name, text = outlineReference name := by
  unfold isOutlineReference at outline
  split at outline
  · exact ⟨_, eq_of_beq outline⟩
  · exact absurd outline Bool.false_ne_true

/-! ## Well-formed tokens -/

/-- Whether a piece may stand in the body of an optional group. -/
def Piece.isInline : Piece → Bool
  | .text _ | .escape _ | .parameter _ _ | .anonymous | .outline _ => true
  | _ => false

theorem Piece.not_isTable_of_isInline {piece : Piece} (inline : piece.isInline) :
    ¬piece.isTable := by
  cases piece with
  | table columns => exact absurd inline Bool.false_ne_true
  | _ => exact Bool.false_ne_true

/-- What the recogniser of a token guarantees. The markers of an optional group are no tokens of
their own. -/
def Token.WellFormed (token : Token) : Prop :=
  match token.piece with
  | .anchor | .table _ => True
  | .text characters => characters ≠ []
  | .escape character => isEscapable character
  | .enum values => values ≠ [] ∧ [] ∉ values ∧ token.raw.head? = some '('
  | .parameter _ _ | .anonymous => token.raw.head? = some '{'
  | .optionalOpen | .optionalClose => False
  | .alternatives words => words ≠ []
  | .outline name => token.raw = outlineReference name ∧ isOutlineReference token.raw

/-- A token that stands alone is well formed, and an optional group holds tokens that may stand in
it. -/
def Part.WellFormed : Part → Prop
  | .token single => single.WellFormed
  | .optional body => body ≠ [] ∧ ∀ token ∈ body, token.piece.isInline ∧ token.WellFormed

theorem escape?_wellFormed {text : Text} {found : Found Piece}
    (recognised : escape? text = some found) :
    (found.token text).piece.isInline ∧ (found.token text).WellFormed := by
  unfold escape? at recognised
  split at recognised
  case h_2 => simp at recognised
  case h_1 first second others =>
    split at recognised
    case isFalse => simp at recognised
    case isTrue escapes =>
      obtain rfl := Option.some.inj recognised
      simp only [Bool.and_eq_true] at escapes
      exact ⟨rfl, escapes.2⟩

theorem enum?_wellFormed {text : Text} {found : Found Piece}
    (recognised : enum? text = some found) :
    ¬(found.token text).piece.isTable ∧ (found.token text).WellFormed := by
  unfold enum? group? at recognised
  cases text with
  | nil => simp at recognised
  | cons character rest =>
      by_cases opens : character = '('
      · obtain rfl := opens
        simp only [beq_self_eq_true, if_true] at recognised
        split at recognised
        case h_1 => simp at recognised
        case h_2 content _ =>
          split at recognised
          case isFalse => simp at recognised
          case isTrue listed =>
            obtain rfl := Option.some.inj recognised
            simp only [Bool.and_eq_true, Bool.not_eq_true'] at listed
            refine ⟨Bool.false_ne_true, by simpa using listed.2, by simp [enumValues], ?_⟩
            simp [Found.token, groupLength]
      · simp [opens] at recognised

theorem parameter?_wellFormed {text : Text} {found : Found Piece}
    (recognised : parameter? text = some found) :
    (found.token text).piece.isInline ∧ (found.token text).WellFormed := by
  unfold parameter? at recognised
  cases text with
  | nil => simp at recognised
  | cons character rest =>
      by_cases opens : character = '{'
      · obtain rfl := opens
        simp only [beq_self_eq_true, if_true] at recognised
        split at recognised
        case h_1 => simp at recognised
        case h_2 type _ =>
          rcases Option.map_eq_some_iff.1 recognised with ⟨name, -, rfl⟩
          exact ⟨rfl, by simp [Token.WellFormed, Found.token]⟩
      · simp [opens] at recognised

theorem anonymous?_wellFormed {text : Text} {found : Found Piece}
    (recognised : anonymous? text = some found) :
    (found.token text).piece.isInline ∧ (found.token text).WellFormed := by
  unfold anonymous? at recognised
  split at recognised
  case h_2 => simp at recognised
  case h_1 first second others =>
    split at recognised
    case isFalse => simp at recognised
    case isTrue braces =>
      obtain rfl := Option.some.inj recognised
      simp only [Bool.and_eq_true, beq_iff_eq] at braces
      exact ⟨rfl, by simp [Token.WellFormed, Found.token, braces.1]⟩

theorem alternatives?_wellFormed {previous : Option Char} {text : Text} {found : Found Piece}
    (recognised : alternatives? previous text = some found) :
    ¬(found.token text).piece.isTable ∧ (found.token text).WellFormed := by
  unfold alternatives? at recognised
  split at recognised
  case isTrue => simp at recognised
  case isFalse =>
    simp only at recognised
    split at recognised
    case isFalse => simp at recognised
    case isTrue several =>
      obtain rfl := Option.some.inj recognised
      refine ⟨Bool.false_ne_true, fun empty => ?_⟩
      simp [empty] at several

theorem outline?_wellFormed {text : Text} {found : Found Piece}
    (recognised : outline? text = some found) :
    (found.token text).piece.isInline ∧ (found.token text).WellFormed := by
  rcases Option.map_eq_some_iff.1 recognised with ⟨name, named, rfl⟩
  rcases outlineName?_eq_some_iff.1 named with ⟨rest, rfl, -⟩
  have raw : (outlineReference name ++ rest).take (name.length + 2) = outlineReference name :=
    List.take_left' (by simp [outlineReference])
  refine ⟨rfl, ?_, ?_⟩
  · exact raw
  · rw [Found.token, raw]
    exact isOutlineReference_outlineReference named

/-- What a table declares reaches to the end of the text. -/
theorem table?_eq_some {text : Text} {found : Found Piece} (recognised : table? text = some found) :
    (∃ columns, found.value = .table columns) ∧ found.length = text.length := by
  unfold table? at recognised
  split at recognised
  case h_1 => obtain rfl := Option.some.inj recognised; exact ⟨⟨_, rfl⟩, rfl⟩
  case h_2 =>
    split at recognised
    case isTrue => obtain rfl := Option.some.inj recognised; exact ⟨⟨_, rfl⟩, rfl⟩
    case isFalse => simp at recognised

/-! ## Well-formed parts -/

theorem inline?_wellFormed {text : Text} {found : Found Piece}
    (recognised : inline? text = some found) :
    (found.token text).piece.isInline ∧ (found.token text).WellFormed := by
  simp only [inline?, Option.orElse_eq_orElse, Option.orElse_eq_or, Option.or_eq_some_iff]
    at recognised
  rcases recognised with found | ⟨-, found | ⟨-, found | ⟨-, found⟩⟩⟩
  · exact escape?_wellFormed found
  · exact parameter?_wellFormed found
  · exact anonymous?_wellFormed found
  · exact outline?_wellFormed found

theorem wellFormed_of_mem_groupTokens {content : Text} {token : Token}
    (member : token ∈ groupTokens content) : token.piece.isInline ∧ token.WellFormed := by
  rcases List.mem_map.1 member with ⟨span, spanMember, rfl⟩
  have all : ∀ span ∈ scanFrom inlineToken? none 0 content,
      span.token.piece.isInline ∧ span.token.WellFormed := by
    apply forall_mem_scanFrom
    · exact fun text nonempty => ⟨rfl, nonempty⟩
    · intro previous suffix found recognised
      rcases Option.map_eq_some_iff.1 recognised with ⟨inner, innerFound, rfl⟩
      exact inline?_wellFormed innerFound
  exact all span spanMember

/-- The body of an optional group holds at least one token, and each may stand in it. -/
theorem optionalPart_wellFormed {text content : Text}
    (recognised : optionalContent? text = some content) :
    (optionalPart content).value.WellFormed := by
  have notBlank : content.all isBlank = false := by
    unfold optionalContent? at recognised
    split at recognised
    case h_1 => simp at recognised
    case h_2 inside _ =>
      split at recognised
      case isTrue => simp at recognised
      case isFalse filled =>
        obtain rfl := Option.some.inj recognised
        simp only [Bool.or_eq_true, not_or, Bool.not_eq_true] at filled
        exact filled.2
  constructor
  · cases content with
    | nil => simp at notBlank
    | cons character others =>
        simp only [groupTokens, ne_eq, List.map_eq_nil_iff, scan, scanFrom]
        split
        · simp
        · cases scanFrom inlineToken? (some character) 0 others with
          | nil => simp [Span.cons]
          | cons first rest => cases first <;> simp [Span.cons]
  · exact fun _ => wellFormed_of_mem_groupTokens

def Part.isTable : Part → Bool
  | .token single => single.piece.isTable
  | .optional _ => false

theorem Found.part_wellFormed {text : Text} {found : Found Piece}
    (notTable : ¬(found.token text).piece.isTable) (wellFormed : (found.token text).WellFormed) :
    (found.part text).value.WellFormed ∧
      ((found.part text).value.isTable → text.length ≤ (found.part text).length) :=
  ⟨wellFormed, fun isTable => absurd isTable notTable⟩

theorem Found.part_wellFormed_of_isInline {text : Text} {found : Found Piece}
    (inline : (found.token text).piece.isInline ∧ (found.token text).WellFormed) :
    (found.part text).value.WellFormed ∧
      ((found.part text).value.isTable → text.length ≤ (found.part text).length) :=
  part_wellFormed (Piece.not_isTable_of_isInline inline.1) inline.2

/-- Which recogniser found a part at the start of a text. -/
inductive IsFoundBy (previous : Option Char) (text : Text) : Found Part → Prop
  | escape {found : Found Piece} (recognised : escape? text = some found) :
      IsFoundBy previous text (found.part text)
  | table {found : Found Piece} (recognised : table? text = some found) :
      IsFoundBy previous text (found.part text)
  | enum {found : Found Piece} (recognised : enum? text = some found) :
      IsFoundBy previous text (found.part text)
  | parameter {found : Found Piece} (recognised : parameter? text = some found) :
      IsFoundBy previous text (found.part text)
  | anonymous {found : Found Piece} (recognised : anonymous? text = some found) :
      IsFoundBy previous text (found.part text)
  | optional {content : Text} (recognised : optionalContent? text = some content) :
      IsFoundBy previous text (optionalPart content)
  | alternatives {found : Found Piece} (recognised : alternatives? previous text = some found) :
      IsFoundBy previous text (found.part text)
  | outline {found : Found Piece} (recognised : outline? text = some found) :
      IsFoundBy previous text (found.part text)

theorem isFoundBy_of_part? {previous : Option Char} {text : Text} {found : Found Part}
    (recognised : part? previous text = some found) : IsFoundBy previous text found := by
  simp only [part?, Option.orElse_eq_orElse, Option.orElse_eq_or, Option.or_eq_some_iff,
    Option.map_eq_some_iff] at recognised
  rcases recognised with ⟨inner, own, rfl⟩ | ⟨-, ⟨inner, own, rfl⟩ | ⟨-, ⟨inner, own, rfl⟩ |
    ⟨-, ⟨inner, own, rfl⟩ | ⟨-, ⟨inner, own, rfl⟩ | ⟨-, ⟨content, own, rfl⟩ |
    ⟨-, ⟨inner, own, rfl⟩ | ⟨-, ⟨inner, own, rfl⟩⟩⟩⟩⟩⟩⟩⟩
  · exact .escape own
  · exact .table own
  · exact .enum own
  · exact .parameter own
  · exact .anonymous own
  · exact .optional own
  · exact .alternatives own
  · exact .outline own

/-- The parts that are found are well formed, and a table reaches to the end of the text. -/
theorem part?_wellFormed {previous : Option Char} {text : Text} {found : Found Part}
    (recognised : part? previous text = some found) :
    found.value.WellFormed ∧ (found.value.isTable → text.length ≤ found.length) := by
  cases isFoundBy_of_part? recognised with
  | escape own => exact Found.part_wellFormed_of_isInline (escape?_wellFormed own)
  | table own =>
      rcases table?_eq_some own with ⟨⟨columns, declared⟩, whole⟩
      refine ⟨?_, fun _ => whole.ge⟩
      simp [Found.part, Found.token, Part.WellFormed, Token.WellFormed, declared]
  | enum own => exact Found.part_wellFormed (enum?_wellFormed own).1 (enum?_wellFormed own).2
  | parameter own => exact Found.part_wellFormed_of_isInline (parameter?_wellFormed own)
  | anonymous own => exact Found.part_wellFormed_of_isInline (anonymous?_wellFormed own)
  | optional own =>
      exact ⟨optionalPart_wellFormed own, fun isTable => absurd isTable Bool.false_ne_true⟩
  | alternatives own =>
      exact Found.part_wellFormed (alternatives?_wellFormed own).1 (alternatives?_wellFormed own).2
  | outline own => exact Found.part_wellFormed_of_isInline (outline?_wellFormed own)

theorem wellFormed_of_mem_bodyParts {body : Text} {part : Part} (member : part ∈ bodyParts body) :
    part.WellFormed := by
  rcases List.mem_map.1 member with ⟨span, spanMember, rfl⟩
  have all : ∀ span ∈ scanFrom part? none 0 body, span.part.WellFormed := by
    apply forall_mem_scanFrom
    · exact fun text nonempty => nonempty
    · exact fun previous suffix found recognised => (part?_wellFormed recognised).1
  exact all span spanMember

theorem ofPattern_of_head?_ne {pattern : Pattern} (noCaret : pattern.head? ≠ some '^') :
    Anchored.ofPattern pattern = .ofRest [] pattern := by
  cases pattern with
  | nil => rfl
  | cons character rest =>
      have notCaret : character ≠ '^' := by simpa using noCaret
      simp [Anchored.ofPattern, notCaret]

theorem mem_anchorParts {raw : Text} {part : Part} (member : part ∈ anchorParts raw) :
    part = .token ⟨.anchor, raw⟩ := by
  unfold anchorParts at member
  split at member <;> simp_all

theorem wellFormed_of_mem_parts {pattern : Pattern} {part : Part}
    (member : part ∈ pattern.parts) : part.WellFormed := by
  simp only [Pattern.parts, List.mem_append] at member
  rcases member with (opening | body) | closing
  · rw [mem_anchorParts opening]
    trivial
  · exact wellFormed_of_mem_bodyParts body
  · rw [mem_anchorParts closing]
    trivial

def Token.IsLexed (token : Token) : Prop :=
  token.piece = .optionalOpen ∨ token.piece = .optionalClose ∨ token.WellFormed

theorem isLexed_of_mem_tokens {pattern : Pattern} {token : Token}
    (member : token ∈ pattern.tokens) : token.IsLexed := by
  rcases List.mem_flatMap.1 member with ⟨part, partMember, tokenMember⟩
  have wellFormed := wellFormed_of_mem_parts partMember
  cases part with
  | token single =>
      rw [List.mem_singleton.1 tokenMember]
      exact Or.inr (Or.inr wellFormed)
  | optional body =>
      simp only [Part.tokens, List.cons_append, List.mem_cons, List.mem_append, List.not_mem_nil,
        or_false] at tokenMember
      rcases tokenMember with rfl | inside | rfl
      · exact Or.inl rfl
      · exact Or.inr (Or.inr (wellFormed.2 token inside).2)
      · exact Or.inr (Or.inl rfl)

theorem Token.IsLexed.values_filled {token : Token} (lexed : token.IsLexed) {values : List Text}
    (piece : token.piece = .enum values) : values ≠ [] ∧ [] ∉ values := by
  rcases lexed with opening | closing | wellFormed
  · rw [piece] at opening
    contradiction
  · rw [piece] at closing
    contradiction
  · unfold Token.WellFormed at wellFormed
    simp only [piece] at wellFormed
    exact ⟨wellFormed.1, wellFormed.2.1⟩

/-! ## Tables -/

theorem not_isTable_of_mem_tokens {part : Part} (wellFormed : part.WellFormed)
    (notTable : ¬part.isTable) {token : Token} (member : token ∈ part.tokens) :
    ¬token.piece.isTable := by
  cases part with
  | token single =>
      rw [List.mem_singleton.1 member]
      exact notTable
  | optional body =>
      simp only [Part.tokens, List.cons_append, List.mem_cons, List.mem_append, List.not_mem_nil,
        or_false] at member
      rcases member with rfl | inside | rfl
      · exact Bool.false_ne_true
      · exact Piece.not_isTable_of_isInline (wellFormed.2 token inside).1
      · exact Bool.false_ne_true

theorem not_isTable_of_mem_dropLast {body : Text} {part : Part}
    (member : part ∈ (bodyParts body).dropLast) : ¬part.isTable := by
  rw [bodyParts, ← List.map_dropLast] at member
  rcases List.mem_map.1 member with ⟨span, spanMember, rfl⟩
  cases span with
  | plain text => exact Bool.false_ne_true
  | construct found =>
      intro isTable
      exact not_mem_dropLast_scanFrom (P := fun part => part.isTable)
        (fun _ _ _ recognised => (part?_wellFormed recognised).2) none 0 body isTable spanMember

theorem piece_of_mem_anchorTokens {raw : Text} {token : Token}
    (member : token ∈ (anchorParts raw).flatMap Part.tokens) : token.piece = .anchor := by
  rcases List.mem_flatMap.1 member with ⟨part, partMember, tokenMember⟩
  rw [mem_anchorParts partMember] at tokenMember
  rw [List.mem_singleton.1 tokenMember]

/-- The tokens of the body are tokens that declare no table and at most one that does. -/
theorem bodyTokens_split (body : Text) :
    ∃ inner table, (bodyParts body).flatMap Part.tokens = inner ++ table ∧
      (∀ token ∈ inner, ¬token.piece.isTable) ∧ (∀ token ∈ table, token.piece.isTable) ∧
      table.length ≤ 1 := by
  have free : ∀ token ∈ (bodyParts body).dropLast.flatMap Part.tokens, ¬token.piece.isTable := by
    intro token member
    rcases List.mem_flatMap.1 member with ⟨part, partMember, tokenMember⟩
    have inBody := (List.dropLast_sublist (bodyParts body)).subset partMember
    exact not_isTable_of_mem_tokens (wellFormed_of_mem_bodyParts inBody)
      (not_isTable_of_mem_dropLast partMember) tokenMember
  rcases List.eq_nil_or_concat (bodyParts body) with empty | ⟨front, last, split⟩
  · exact ⟨[], [], by simp [empty], by simp, by simp, by simp⟩
  · have frontFree : ∀ token ∈ front.flatMap Part.tokens, ¬token.piece.isTable := by
      simpa [split] using free
    have lastMember : last ∈ bodyParts body := by simp [split]
    have lastWellFormed := wellFormed_of_mem_bodyParts lastMember
    by_cases lastTable : last.isTable
    · cases last with
      | optional inside => exact absurd lastTable Bool.false_ne_true
      | token single =>
          refine ⟨front.flatMap Part.tokens, [single], by simp [split, Part.tokens], frontFree, ?_,
            by simp⟩
          exact fun token member => List.mem_singleton.1 member ▸ lastTable
    · refine ⟨front.flatMap Part.tokens ++ last.tokens, [], by simp [split], ?_, by simp, by simp⟩
      intro token member
      rcases List.mem_append.1 member with early | late
      · exact frontFree token early
      · exact not_isTable_of_mem_tokens lastWellFormed lastTable late

/-- The tokens of a pattern are tokens that declare no table, at most one that does, and anchors.
-/
theorem tokens_split (pattern : Pattern) :
    ∃ inner table closing, pattern.tokens = inner ++ table ++ closing ∧
      (∀ token ∈ inner, ¬token.piece.isTable) ∧ (∀ token ∈ table, token.piece.isTable) ∧
      table.length ≤ 1 ∧ ∀ token ∈ closing, token.piece = .anchor := by
  obtain ⟨inner, table, split, innerFree, tableOnly, atMostOne⟩ :=
    bodyTokens_split (Anchored.ofPattern pattern).body
  refine ⟨(anchorParts (Anchored.ofPattern pattern).opening).flatMap Part.tokens ++ inner, table,
    (anchorParts (Anchored.ofPattern pattern).closing).flatMap Part.tokens, ?_, ?_, tableOnly,
    atMostOne, fun token => piece_of_mem_anchorTokens⟩
  · simp [Pattern.tokens, Pattern.parts, split]
  · intro token member
    rcases List.mem_append.1 member with opening | inside
    · rw [piece_of_mem_anchorTokens opening]
      exact Bool.false_ne_true
    · exact innerFree token inside

theorem endsInTable_append {inner table closing : List Token}
    (innerFree : ∀ token ∈ inner, ¬token.piece.isTable)
    (tableOnly : ∀ token ∈ table, token.piece.isTable)
    (anchors : ∀ token ∈ closing, token.piece = .anchor) :
    endsInTable (inner ++ table ++ closing) = !table.isEmpty := by
  have closingGone : closing.filter (fun token => token.piece != .anchor) = [] :=
    List.filter_eq_nil_iff.2 fun token member => by simp [anchors token member]
  have tableStays : table.filter (fun token => token.piece != .anchor) = table :=
    List.filter_eq_self.2 fun token member => by
      have := tableOnly token member
      cases piece : token.piece <;> simp_all [Piece.isTable]
  rw [endsInTable, List.filter_append, List.filter_append, closingGone, tableStays,
    List.append_nil]
  rcases List.eq_nil_or_concat table with rfl | ⟨front, last, rfl⟩
  · -- The last token that is not an anchor, if any, is one of those that declare no table.
    cases final : (inner.filter fun token => token.piece != .anchor).getLast? with
    | none => simp [final]
    | some token =>
        have member := List.mem_of_mem_filter (List.mem_of_getLast? final)
        simpa [final] using innerFree token member
  · have lastTable := tableOnly last (by simp)
    rw [List.concat_eq_append, ← List.append_assoc, List.getLast?_append]
    simp [lastTable]

/-- No token of a pattern that does not end in a table declares one. -/
theorem not_isTable_of_not_endsInTable {pattern : Pattern}
    (tableFree : endsInTable pattern.tokens = false) {token : Token}
    (member : token ∈ pattern.tokens) : ¬token.piece.isTable := by
  rcases tokens_split pattern with ⟨inner, table, closing, split, innerFree, tableOnly, -, anchors⟩
  rw [split, endsInTable_append innerFree tableOnly anchors] at tableFree
  obtain rfl : table = [] := by simpa using tableFree
  simp only [split, List.append_nil, List.mem_append] at member
  rcases member with inside | closes
  · exact innerFree token inside
  · rw [anchors token closes]
    exact Bool.false_ne_true

/-- A pattern that ends in a table has one token that declares it, behind all others but the
closing anchor. -/
theorem tokens_of_endsInTable {pattern : Pattern} (ends : endsInTable pattern.tokens) :
    ∃ inner token closing, pattern.tokens = inner ++ token :: closing ∧
      (∀ other ∈ inner, ¬other.piece.isTable) ∧ token.piece.isTable ∧
      ∀ other ∈ closing, other.piece = .anchor := by
  obtain ⟨inner, table, closing, split, innerFree, tableOnly, atMostOne, anchors⟩ :=
    tokens_split pattern
  rw [split, endsInTable_append innerFree tableOnly anchors] at ends
  match table, atMostOne with
  | [], _ => simp at ends
  | [token], _ =>
      have isTable := tableOnly token List.mem_cons_self
      exact ⟨inner, token, closing, by simp [split], innerFree, isTable, anchors⟩

end StepGrammar
