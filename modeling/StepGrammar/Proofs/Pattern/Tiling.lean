import StepGrammar.Proofs.Pattern.Units
import StepGrammar.Proofs.Pattern.Written
import StepGrammar.Proofs.Text.Positions

/-!
Contract: the tokens of a pattern cover it without gaps, and no token begins inside an escape.

A part covers the stretch as which it is written, so the raw texts of the tokens, one after the
other, are the pattern. A pattern divides into its anchors and its body in exactly one way. No
stretch ends in a backslash. Hence a backslash in front of a position that the lexer comes to was
passed as plain text, and then no character that it could escape follows.
-/

namespace StepGrammar

/-! ## Stretches -/

theorem Part.IsWritten.ne_nil {part : Part} {stretch behind : Text}
    (written : part.IsWritten stretch behind) : stretch ≠ [] := by
  cases written with
  | columns => simp [columnSuffix]
  | @alternatives words _ several filled =>
      cases words with
      | nil => exact absurd several (by decide)
      | cons first rest =>
          have nonempty : first ≠ [] := fun empty => filled (empty ▸ List.mem_cons_self)
          rw [Text.join_cons]
          exact List.append_ne_nil_of_left_ne_nil nonempty _
  | _ => exact List.cons_ne_nil _ _

/-- A construct other than a table is an escape, a chain of words or closed by a bracket. -/
theorem Part.IsWritten.closes {part : Part} {stretch behind : Text}
    (written : part.IsWritten stretch behind) (notTable : ¬part.isTable) :
    (∃ character, stretch = ['\\', character] ∧ isEscapable character) ∨
      stretch.all isChainCharacter ∨
      ∃ bracket ∈ [')', '}', '>'], stretch.getLast? = some bracket := by
  cases written with
  | escape escapable => exact Or.inl ⟨_, rfl, escapable⟩
  | columns | colon => exact absurd rfl notTable
  | alternatives _ _ chain => exact Or.inr (Or.inl chain)
  | enum | optional => exact Or.inr (Or.inr ⟨')', by simp, getLast?_parenthesised _⟩)
  | @parameter type name _ _ =>
      exact Or.inr (Or.inr ⟨'}', by simp, List.getLast?_concat (l := '{' :: (type.name ++ _))⟩)
  | anonymous => exact Or.inr (Or.inr ⟨'}', by simp, rfl⟩)
  | @outline name _ _ _ =>
      exact Or.inr (Or.inr ⟨'>', by simp, List.getLast?_concat (l := '<' :: name)⟩)

/-- Behind the colon of a table stand blanks only. -/
theorem Part.IsWritten.eq_of_isTable {part : Part} {stretch behind : Text}
    (written : part.IsWritten stretch behind) (isTable : part.isTable) :
    behind = [] ∧ ∃ front trailing, stretch = front ++ ':' :: trailing ∧ trailing.all isBlank ∧
      front.getLast? ≠ some '\\' := by
  cases written with
  | @columns blanks content gap trailing _ _ between trails =>
      refine ⟨rfl, _, trailing, columnSuffix_eq_append _ _ _ _, trails, ?_⟩
      rw [List.getLast?_append_of_ne_nil _ (List.cons_ne_nil _ _), List.getLast?_cons,
        List.getLast?_append_of_ne_nil _ (List.cons_ne_nil _ _)]
      cases last : (')' :: gap).getLast? with
      | none => simp at last
      | some character =>
          rcases List.mem_cons.1 (List.mem_of_getLast? last) with rfl | member
          · decide
          · rintro same
            obtain rfl : character = '\\' := Option.some.inj same
            exact Text.notMem_of_all between (by decide) member
  | @colon trailing trails => exact ⟨rfl, [], trailing, rfl, trails, by simp⟩
  | _ => exact absurd isTable Bool.false_ne_true

/-- The last character of a stretch is no backslash. -/
theorem Part.IsWritten.getLast?_ne {part : Part} {stretch behind : Text}
    (written : part.IsWritten stretch behind) : stretch.getLast? ≠ some '\\' := by
  intro last
  have member := List.mem_of_getLast? last
  by_cases isTable : part.isTable
  · obtain ⟨-, front, trailing, rfl, trails, -⟩ := written.eq_of_isTable isTable
    exact getLast?_ne_of_trailing trails (by decide) (by decide) last
  · rcases written.closes isTable with ⟨character, rfl, escapable⟩ | chain | ⟨bracket, isBracket,
      ends⟩
    · obtain rfl : character = '\\' := by simpa using last
      exact absurd escapable (by decide)
    · exact Text.notMem_of_all chain (by decide +kernel) member
    · rw [last, Option.some.injEq] at ends
      exact absurd isBracket (ends ▸ by decide)

/-! ## Raw texts -/

def Part.raw (part : Part) : Text := part.tokens.flatMap Token.raw

theorem inline?_isWritten {text : Text} {found : Found Piece}
    (recognised : inline? text = some found) : (found.part text).IsWritten text := by
  simp only [inline?, Option.orElse_eq_orElse, Option.orElse_eq_or, Option.or_eq_some_iff]
    at recognised
  rcases recognised with found | ⟨-, found | ⟨-, found | ⟨-, found⟩⟩⟩
  · exact escape?_isWritten found
  · exact parameter?_isWritten found
  · exact anonymous?_isWritten found
  · exact outline?_isWritten found

theorem covers_inlineToken? : inlineToken?.Covers Token.raw := by
  intro previous text token recognised
  obtain ⟨found, inline, rfl⟩ := Option.map_eq_some_iff.1 recognised
  obtain ⟨stretch, behind, split, length, written⟩ := inline?_isWritten inline
  refine ⟨?_, rfl⟩
  rw [show found.length = stretch.length from length]
  exact List.length_pos_of_ne_nil written.ne_nil

theorem flatMap_raw_groupTokens (content : Text) :
    (groupTokens content).flatMap Token.raw = content := by
  have same : (fun span => (Span.token span).raw) = Span.covered Token.raw := by
    funext span
    cases span <;> rfl
  rw [groupTokens, List.flatMap_map, same, flatMap_covered_scan covers_inlineToken?]

theorem Part.IsWritten.raw_eq {part : Part} {stretch behind : Text}
    (written : part.IsWritten stretch behind) : part.raw = stretch := by
  cases written with
  | optional => simp [Part.raw, Part.tokens, flatMap_raw_groupTokens, parenthesised]
  | _ => exact List.append_nil _

theorem raw_ne_nil_of_mem_groupTokens {content : Text} {token : Token}
    (member : token ∈ groupTokens content) : token.raw ≠ [] := by
  obtain ⟨span, spanMember, rfl⟩ := List.mem_map.1 member
  have all : ∀ span ∈ scanFrom inlineToken? none 0 content, span.token.raw ≠ [] := by
    apply forall_mem_scanFrom
    · exact fun text nonempty => nonempty
    · intro previous suffix found recognised
      obtain ⟨inner, inline, rfl⟩ := Option.map_eq_some_iff.1 recognised
      obtain ⟨stretch, behind, -, -, written⟩ := inline?_isWritten inline
      have own : (inner.token suffix).raw ++ [] = stretch := written.raw_eq
      rw [List.append_nil] at own
      show (inner.token suffix).raw ≠ []
      rw [own]
      exact written.ne_nil
  exact all span spanMember

/-- Every token of a written part covers at least one character. -/
theorem Part.IsWritten.raw_ne_nil {part : Part} {stretch behind : Text}
    (written : part.IsWritten stretch behind) {token : Token} (member : token ∈ part.tokens) :
    token.raw ≠ [] := by
  cases part with
  | token single =>
      have own : single.raw ++ [] = stretch := written.raw_eq
      rw [List.append_nil] at own
      rw [List.mem_singleton.1 member, own]
      exact written.ne_nil
  | optional body =>
      cases written
      simp only [Part.tokens, List.cons_append, List.mem_cons, List.mem_append, List.not_mem_nil,
        or_false] at member
      rcases member with rfl | inside | rfl
      · exact List.cons_ne_nil _ _
      · exact raw_ne_nil_of_mem_groupTokens inside
      · exact List.cons_ne_nil _ _

theorem advances_part? : part?.Advances := by
  intro previous text found recognised
  obtain ⟨stretch, behind, rfl, length, written⟩ := part?_isWritten recognised
  have positive := List.length_pos_of_ne_nil written.ne_nil
  rw [length, List.length_append]
  omega

theorem covers_part? : part?.Covers Part.raw := by
  intro previous text found recognised
  obtain ⟨stretch, behind, rfl, length, written⟩ := part?_isWritten recognised
  rw [length, written.raw_eq, List.take_left]
  exact ⟨List.length_pos_of_ne_nil written.ne_nil, rfl⟩

theorem raw_part (span : Span Part) : span.part.raw = span.covered Part.raw := by
  cases span with
  | plain text => exact List.append_nil text
  | construct found => rfl

/-- The raw texts of the tokens of a body are the body. -/
theorem flatMap_raw_bodyParts (body : Text) : (bodyParts body).flatMap Part.raw = body := by
  rw [bodyParts, List.flatMap_map]
  simp only [raw_part]
  exact flatMap_covered_scan covers_part? body

theorem flatMap_raw_anchorParts (raw : Text) : (anchorParts raw).flatMap Part.raw = raw := by
  cases raw with
  | nil => rfl
  | cons character rest => simp [anchorParts, Part.raw, Part.tokens]

theorem raw_ne_nil_of_mem_anchorParts {raw : Text} {part : Part} (member : part ∈ anchorParts raw)
    {token : Token} (own : token ∈ part.tokens) : token.raw ≠ [] := by
  cases raw with
  | nil => contradiction
  | cons character rest =>
      rw [mem_anchorParts member] at own
      rw [List.mem_singleton.1 own]
      exact List.cons_ne_nil _ _

/-! ## Anchors -/

theorem ofRest_of_getLast?_ne {rest : Text} (noDollar : rest.getLast? ≠ some '$')
    (opening : Text) : Anchored.ofRest opening rest = ⟨opening, rest, []⟩ := by
  have notClosed : endsInDollar rest = false := by simp [endsInDollar, noDollar]
  rw [Anchored.ofRest, notClosed]
  rfl

theorem endsInDollar_iff {text : Text} :
    endsInDollar text ↔ ∃ front, text = front ++ ['$'] ∧ front.getLast? ≠ some '\\' := by
  rw [endsInDollar, Bool.and_eq_true, beq_iff_eq, bne_iff_ne, List.getLast?_eq_some_iff]
  constructor
  · rintro ⟨⟨front, rfl⟩, unescaped⟩
    rw [List.dropLast_concat] at unescaped
    exact ⟨front, rfl, unescaped⟩
  · rintro ⟨front, rfl, unescaped⟩
    exact ⟨⟨front, rfl⟩, by rwa [List.dropLast_concat]⟩

/-- How a pattern divides: a caret at its start is the opening anchor, and a dollar sign at the end
of what stands behind it is the closing one, unless a backslash precedes it there. -/
structure Anchored.Divides (anchored : Anchored) (pattern : Pattern) : Prop where
  whole : anchored.opening ++ (anchored.body ++ anchored.closing) = pattern
  opened : (anchored.opening = [] ∧ pattern.head? ≠ some '^') ∨ anchored.opening = ['^']
  closed :
    (anchored.closing = [] ∧
      ∀ front, anchored.body = front ++ ['$'] → front.getLast? = some '\\') ∨
    (anchored.closing = ['$'] ∧ anchored.body.getLast? ≠ some '\\')

theorem divides_ofRest {opening rest : Text}
    (opened : (opening = [] ∧ (opening ++ rest).head? ≠ some '^') ∨ opening = ['^']) :
    (Anchored.ofRest opening rest).Divides (opening ++ rest) := by
  unfold Anchored.ofRest
  split
  · rename_i dollar
    obtain ⟨body, rfl, unescaped⟩ := endsInDollar_iff.1 dollar
    rw [List.dropLast_concat]
    exact ⟨rfl, opened, Or.inr ⟨rfl, unescaped⟩⟩
  · rename_i notClosed
    refine ⟨by rw [List.append_nil], opened, Or.inl ⟨rfl, fun front ends => ?_⟩⟩
    by_contra unescaped
    exact notClosed (endsInDollar_iff.2 ⟨front, ends, unescaped⟩)

theorem divides_ofPattern (pattern : Pattern) : (Anchored.ofPattern pattern).Divides pattern := by
  by_cases caret : pattern.head? = some '^'
  · obtain ⟨rest, rfl⟩ := List.head?_eq_some_iff.1 caret
    exact divides_ofRest (Or.inr rfl)
  · rw [ofPattern_of_head?_ne caret]
    exact divides_ofRest (Or.inl ⟨rfl, caret⟩)

namespace Anchored.Divides

variable {first second : Anchored} {pattern : Pattern}

theorem opening_eq (one : first.Divides pattern) (other : second.Divides pattern) :
    first.opening = second.opening := by
  have headed {anchored : Anchored} (divides : anchored.Divides pattern)
      (caret : anchored.opening = ['^']) : pattern.head? = some '^' := by
    rw [← divides.whole, caret]
    rfl
  rcases one.opened with ⟨none, bare⟩ | caret <;> rcases other.opened with ⟨none', bare'⟩ | caret'
  · rw [none, none']
  · exact absurd (headed other caret') bare
  · exact absurd (headed one caret) bare'
  · rw [caret, caret']

theorem unique (one : first.Divides pattern) (other : second.Divides pattern) :
    first = second := by
  have opening := one.opening_eq other
  have rest : first.body ++ first.closing = second.body ++ second.closing := by
    have whole := one.whole.trans other.whole.symm
    rw [opening] at whole
    exact List.append_cancel_left whole
  obtain ⟨firstOpening, firstBody, firstClosing⟩ := first
  obtain ⟨secondOpening, secondBody, secondClosing⟩ := second
  obtain rfl : firstOpening = secondOpening := opening
  rcases one.closed with ⟨rfl, escaped⟩ | ⟨rfl, unescaped⟩ <;>
    rcases other.closed with ⟨rfl, escaped'⟩ | ⟨rfl, unescaped'⟩
  · simpa using rest
  · exact absurd (escaped secondBody (by simpa using rest)) unescaped'
  · exact absurd (escaped' firstBody (by simpa using rest.symm)) unescaped
  · simpa using rest

end Anchored.Divides

/-- The anchors that are cut off a pattern are the ones that divide it, and no others do. -/
theorem ofPattern_eq_iff {pattern : Pattern} {anchored : Anchored} :
    Anchored.ofPattern pattern = anchored ↔ anchored.Divides pattern :=
  ⟨fun same => same ▸ divides_ofPattern pattern, fun divides =>
    (divides_ofPattern pattern).unique divides⟩

/-! ## Whole patterns -/

/-- The raw texts of the tokens of a pattern, one after the other, are the pattern. -/
theorem flatMap_raw_tokens (pattern : Pattern) : pattern.tokens.flatMap Token.raw = pattern := by
  have byParts : pattern.tokens.flatMap Token.raw = pattern.parts.flatMap Part.raw := by
    rw [Pattern.tokens, List.flatMap_assoc]
    rfl
  rw [byParts, Pattern.parts, List.flatMap_append, List.flatMap_append, flatMap_raw_anchorParts,
    flatMap_raw_bodyParts, flatMap_raw_anchorParts, List.append_assoc,
    (divides_ofPattern pattern).whole]

/-- Every token of a pattern covers at least one character. -/
theorem raw_ne_nil_of_mem_tokens {pattern : Pattern} {token : Token}
    (member : token ∈ pattern.tokens) : token.raw ≠ [] := by
  obtain ⟨part, partMember, tokenMember⟩ := List.mem_flatMap.1 member
  simp only [Pattern.parts, List.mem_append] at partMember
  rcases partMember with (opening | inside) | closing
  · exact raw_ne_nil_of_mem_anchorParts opening tokenMember
  · obtain ⟨span, spanMember, rfl⟩ := List.mem_map.1 inside
    have all : ∀ span ∈ scanFrom part? none 0 (Anchored.ofPattern pattern).body,
        ∀ token ∈ span.part.tokens, token.raw ≠ [] := by
      apply forall_mem_scanFrom
      · intro text nonempty token own
        rwa [List.mem_singleton.1 own]
      · intro previous suffix found recognised token own
        obtain ⟨stretch, behind, -, -, written⟩ := part?_isWritten recognised
        exact written.raw_ne_nil own
    exact all span spanMember token tokenMember
  · exact raw_ne_nil_of_mem_anchorParts closing tokenMember

/-! ## Positions in a body -/

/-- The lexer comes to a character, or a construct covers it together with what stands right before
it. -/
theorem isAsked_or_isWritten {body front rest : Text} {character : Char}
    (split : body = front ++ character :: rest) :
    IsAsked part? body front (character :: rest) ∨
      ∃ earlier middle tail behind part, front = earlier ++ middle ∧ middle ≠ [] ∧
        rest = tail ++ behind ∧ Part.IsWritten part (middle ++ character :: tail) behind ∧
        .construct part ∈ scan part? body := by
  rcases isAsked_or_covered advances_part? split with asked | ⟨earlier, middle, found, same,
    nonempty, asked, recognised, longer⟩
  · exact Or.inl asked
  · obtain ⟨stretch, behind, cut, length, written⟩ := part?_isWritten recognised
    rw [length] at longer
    -- The stretch is longer than what stands before the character, so it holds the character.
    obtain ⟨tail, rfl, remaining⟩ : ∃ tail, stretch = middle ++ character :: tail ∧
        rest = tail ++ behind := by
      rcases List.append_eq_append_iff.1 cut with ⟨inner, rfl, remaining⟩ | ⟨inner, rfl, -⟩
      · cases inner with
        | nil => simp at longer
        | cons first tail =>
            rw [List.cons_append, List.cons.injEq] at remaining
            exact ⟨tail, by rw [remaining.1], remaining.2⟩
      · rw [List.length_append] at longer
        omega
    exact Or.inr ⟨earlier, middle, tail, behind, found.value, same, nonempty, remaining, written,
      asked.found_mem advances_part? recognised⟩

/-- A construct of a body is written behind what the spans before it cover, at a position that the
lexer comes to. -/
theorem exists_isWritten_of_scan {body : Text} {before after : List (Span Part)} {part : Part}
    (split : scan part? body = before ++ .construct part :: after) :
    ∃ stretch behind,
      IsAsked part? body (before.flatMap (Span.covered Part.raw)) (stretch ++ behind) ∧
      part.IsWritten stretch behind := by
  obtain ⟨rest, found, asked, recognised, rfl⟩ :=
    exists_isAsked_of_scan advances_part? covers_part? split
  obtain ⟨stretch, behind, rfl, -, written⟩ := part?_isWritten recognised
  exact ⟨stretch, behind, asked, written⟩

/-! ## Escapes -/

/-- A construct that was found is written as the stretch that it covers. -/
theorem Found.IsWritten.of_append {found : Found Part} {stretch rest : Text}
    (written : found.IsWritten (stretch ++ rest)) (length : found.length = stretch.length) :
    found.value.IsWritten stretch rest := by
  obtain ⟨own, behind, split, sameLength, written⟩ := written
  obtain ⟨rfl, rfl⟩ := List.append_inj split (length.symm.trans sameLength)
  exact written

/-- Where all escapes are found and no construct ends in a backslash, the scan comes to no character
that a backslash before it escapes. -/
theorem IsAsked.not_isEscapable {α : Type} {recognise : Recogniser α} {text front rest : Text}
    (asked : IsAsked recognise text front rest)
    (escapes : ∀ previous second rest, isEscapable second →
      recognise previous ('\\' :: second :: rest) ≠ none)
    (closes : ∀ previous stretch rest found, recognise previous (stretch ++ rest) = some found →
      found.length = stretch.length → stretch ≠ [] ∧ stretch.getLast? ≠ some '\\')
    (backslash : front.getLast? = some '\\') : rest.head?.any isEscapable = false := by
  cases asked with
  | start => contradiction
  | @passed front rest character _ nothing =>
      obtain rfl : character = '\\' := by simpa using backslash
      by_contra escapable
      cases rest with
      | nil => exact escapable rfl
      | cons second rest => exact escapes _ second rest (by simpa using escapable) nothing
  | @covered front stretch rest found _ recognised length =>
      obtain ⟨nonempty, clear⟩ := closes _ _ _ _ recognised length
      rw [List.getLast?_append_of_ne_nil _ nonempty] at backslash
      exact absurd backslash clear

/-- Behind a backslash the lexer comes to no character that the backslash escapes. -/
theorem not_isEscapable_of_isAsked {body front rest : Text} (asked : IsAsked part? body front rest)
    (backslash : front.getLast? = some '\\') : rest.head?.any isEscapable = false := by
  apply asked.not_isEscapable _ _ backslash
  · intro previous second rest escapable
    rw [part?_escape escapable]
    exact Option.some_ne_none _
  · intro previous stretch rest found recognised length
    have written := (part?_isWritten recognised).of_append length
    exact ⟨written.ne_nil, written.getLast?_ne⟩

/-- Nor does it inside an optional group. -/
theorem not_isEscapable_of_isAsked_inline {content front rest : Text}
    (asked : IsAsked inlineToken? content front rest)
    (backslash : front.getLast? = some '\\') : rest.head?.any isEscapable = false := by
  apply asked.not_isEscapable _ _ backslash
  · intro previous second rest escapable
    simp [inlineToken?, inline?, escape?, escapable]
  · intro previous stretch rest token recognised length
    obtain ⟨found, inline, rfl⟩ := Option.map_eq_some_iff.1 recognised
    have written := (inline?_isWritten inline).of_append length
    exact ⟨written.ne_nil, written.getLast?_ne⟩

end StepGrammar
