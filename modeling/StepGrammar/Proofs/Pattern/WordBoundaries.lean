import StepGrammar.Proofs.Pattern.Brackets

/-!
Contract: where a chain of words stands between the characters around it.

A chain is as long as possible, so no word character follows it. Before it stands no character that
extends a word. The word characters that do not extend one are marks, connectors and joiners, and
they begin chains themselves. The lexer therefore comes to a chain behind such a character only if
it refused the whole run of word characters, one after the other, because of what stands before the
run: an alphanumeric character that is no word character.
-/

namespace StepGrammar

/-! ## The chain at the start of a text -/

def StartsChain (text : Text) : Prop := 2 ≤ (chainWords text).length

theorem isChainCharacter_of_isWord {character : Char} (word : isWord character) :
    isChainCharacter character := by
  rw [isChainCharacter, word, Bool.true_or]

theorem startsWord_of_startsChain {text : Text} (chain : StartsChain text) : startsWord text := by
  by_contra notWord
  rw [StartsChain, chainWords, if_neg notWord] at chain
  exact absurd chain (by decide)

/-- The words of a chain are what stands between the first slashes of a run. -/
theorem chainWords_eq {text : Text} (starts : startsWord text) :
    chainWords text =
      ((text.takeWhile isChainCharacter).splitOn '/').takeWhile fun word => !word.isEmpty := by
  rw [chainWords, if_pos starts]

/-- No word character stands behind the chain at the start of a text. -/
theorem exists_behind_chainWords {text : Text} (chain : StartsChain text) :
    ∃ behind, text = Text.join ['/'] (chainWords text) ++ behind ∧ ¬startsWord behind := by
  have words := chainWords_eq (startsWord_of_startsChain chain)
  have run := List.takeWhile_append_dropWhile (p := isChainCharacter) (l := text)
  have joined : Text.join ['/'] ((text.takeWhile isChainCharacter).splitOn '/') =
      text.takeWhile isChainCharacter := List.intercalate_splitOn '/'
  have parts := List.takeWhile_append_dropWhile (p := fun word : Text => !word.isEmpty)
    (l := (text.takeWhile isChainCharacter).splitOn '/')
  rw [← words] at parts
  cases others : ((text.takeWhile isChainCharacter).splitOn '/').dropWhile
      fun word => !word.isEmpty with
  | nil =>
      -- The chain is the whole run, and the run is as long as possible.
      rw [others, List.append_nil] at parts
      refine ⟨text.dropWhile isChainCharacter, by rw [parts, joined, run], ?_⟩
      cases left : text.dropWhile isChainCharacter with
      | nil => exact Bool.false_ne_true
      | cons character rest =>
          have stops := List.head?_dropWhile_not isChainCharacter text
          rw [left, List.head?_cons] at stops
          intro word
          have isChain := isChainCharacter_of_isWord word
          simp [isChain] at stops
  | cons empty more =>
      -- A slash that belongs to no chain ends it.
      have stops := List.head?_dropWhile_not (fun word : Text => !word.isEmpty)
        ((text.takeWhile isChainCharacter).splitOn '/')
      obtain rfl : empty = [] := by simpa [others] using stops
      obtain ⟨first, rest, split⟩ : ∃ first rest, chainWords text = first :: rest :=
        List.exists_cons_of_length_pos (Nat.lt_of_lt_of_le Nat.zero_lt_two chain)
      have slash : ¬isWord '/' := by decide +kernel
      refine ⟨'/' :: (more.flatMap (['/'] ++ ·) ++ text.dropWhile isChainCharacter), ?_, slash⟩
      rw [others] at parts
      rw [← parts, split, List.cons_append, Text.join_cons, List.flatMap_append] at joined
      calc text = text.takeWhile isChainCharacter ++ text.dropWhile isChainCharacter := run.symm
        _ = _ := by
          rw [← joined, split, Text.join_cons]
          simp

/-- A word character before a chain belongs to a longer chain. -/
theorem startsChain_cons {character : Char} {text : Text} (word : isWord character)
    (chain : StartsChain text) : StartsChain (character :: text) := by
  have notSlash : ¬character = '/' := by
    rintro rfl
    exact absurd word (by decide +kernel)
  have words := chainWords_eq (startsWord_of_startsChain chain)
  have starts : startsWord (character :: text) := word
  rw [StartsChain, chainWords_eq starts,
    List.takeWhile_cons_of_pos (isChainCharacter_of_isWord word), List.splitOn_eq_splitOnP,
    List.splitOnP_cons_eq_if_modifyHead, if_neg (by simpa using notSlash),
    ← List.splitOn_eq_splitOnP]
  rw [StartsChain, words] at chain
  cases split : (text.takeWhile isChainCharacter).splitOn '/' with
  | nil => simp [split] at chain
  | cons first rest =>
      rw [split] at chain
      cases first with
      | nil => simp at chain
      | cons second others => simpa using chain

/-! ## What the lexer finds -/

/-- A chain is found where one begins and no character before it extends its first word. -/
theorem alternatives?_eq_none_iff {previous : Option Char} {text : Text} :
    alternatives? previous text = none ↔ previous.any extendsWord ∨ ¬StartsChain text := by
  rw [alternatives?, StartsChain]
  by_cases extended : previous.any extendsWord <;> simp [extended]

theorem alternatives?_eq_some_of_startsChain {previous : Option Char} {text : Text}
    (free : ¬previous.any extendsWord) (chain : StartsChain text) :
    alternatives? previous text =
      some ⟨.alternatives (chainWords text), (Text.join ['/'] (chainWords text)).length⟩ := by
  rw [StartsChain] at chain
  rw [alternatives?, if_neg free]
  exact if_pos chain

theorem alternatives?_eq_none_of_part?_eq_none {previous : Option Char} {text : Text}
    (nothing : part? previous text = none) : alternatives? previous text = none := by
  simp only [part?, Option.orElse_eq_orElse, Option.orElse_eq_or, Option.or_eq_none_iff,
    Option.map_eq_none_iff] at nothing
  exact nothing.2.2.2.2.2.2.1

theorem enum?_value {text : Text} {found : Found Piece} (recognised : enum? text = some found) :
    ∃ values, found.value = .enum values := by
  unfold enum? at recognised
  split at recognised
  case h_1 => contradiction
  case h_2 content _ =>
    obtain ⟨-, same⟩ := Option.ite_none_right_eq_some.1 recognised
    exact ⟨enumValues content, by rw [← Option.some.inj same]⟩

/-- Among the recognisers only the one for chains finds chains. -/
theorem alternatives?_of_part? {previous : Option Char} {text raw : Text} {words : List Text}
    {found : Found Part} (recognised : part? previous text = some found)
    (chain : found.value = .token ⟨.alternatives words, raw⟩) :
    ∃ inner, alternatives? previous text = some inner ∧ found = inner.part text := by
  have piece (inner : Found Piece) (value : (inner.part text).value = found.value) :
      inner.value = .alternatives words :=
    congrArg Token.piece (Part.token.inj (value.trans chain))
  have notInline (inner : Found Piece) (value : (inner.part text).value = found.value) :
      ¬inner.value.isInline := by
    rw [piece inner value]
    exact Bool.false_ne_true
  cases isFoundBy_of_part? recognised with
  | escape own => exact absurd (escape?_wellFormed own).1 (notInline _ rfl)
  | parameter own => exact absurd (parameter?_wellFormed own).1 (notInline _ rfl)
  | anonymous own => exact absurd (anonymous?_wellFormed own).1 (notInline _ rfl)
  | outline own => exact absurd (outline?_wellFormed own).1 (notInline _ rfl)
  | table own =>
      obtain ⟨⟨columns, declared⟩, -⟩ := table?_eq_some own
      exact Piece.noConfusion (declared.symm.trans (piece _ rfl))
  | enum own =>
      obtain ⟨values, declared⟩ := enum?_value own
      exact Piece.noConfusion (declared.symm.trans (piece _ rfl))
  | optional own => exact Part.noConfusion chain
  | alternatives own => exact ⟨_, own, rfl⟩

/-- What surrounds a chain that is found at a position. -/
theorem boundaries_of_part? {previous : Option Char} {text raw : Text} {words : List Text}
    {found : Found Part} (recognised : part? previous text = some found)
    (chain : found.value = .token ⟨.alternatives words, raw⟩) :
    StartsChain text ∧ ¬previous.any extendsWord ∧
      ∃ behind, text = raw ++ behind ∧ found.length = raw.length ∧ ¬startsWord behind := by
  obtain ⟨inner, own, rfl⟩ := alternatives?_of_part? recognised chain
  have present : ¬alternatives? previous text = none := by simp [own]
  rw [alternatives?_eq_none_iff, not_or, not_not] at present
  obtain ⟨free, starts⟩ := present
  obtain ⟨behind, split, boundary⟩ := exists_behind_chainWords starts
  rw [alternatives?_eq_some_of_startsChain free starts] at own
  have length : inner.length = (Text.join ['/'] (chainWords text)).length := by
    rw [← Option.some.inj own]
  obtain rfl : Text.join ['/'] (chainWords text) = raw := by
    have token : text.take inner.length = raw := congrArg Token.raw (Part.token.inj chain)
    have front := (congrArg (List.take inner.length) split).trans (List.take_left' length.symm)
    exact front.symm.trans token
  exact ⟨starts, free, behind, split, length, boundary⟩

/-! ## Runs of word characters before a chain -/

theorem not_isWord_of_isEscapable {character : Char} (escapable : isEscapable character) :
    ¬isWord character := by
  rw [isEscapable, List.contains_iff_mem] at escapable
  simp only [escapables, List.mem_cons, List.not_mem_nil, or_false] at escapable
  rcases escapable with rfl | rfl | rfl | rfl | rfl | rfl | rfl | rfl <;> decide +kernel

/-- A construct other than a table that ends in a word character is a chain of words. -/
theorem Part.IsWritten.eq_alternatives {part : Part} {stretch behind : Text} {character : Char}
    (written : part.IsWritten stretch behind) (notTable : ¬part.isTable)
    (last : stretch.getLast? = some character) (word : isWord character) :
    ∃ words, part = .token ⟨.alternatives words, stretch⟩ := by
  have notBracket : ∀ bracket ∈ [')', '}', '>'], character ≠ bracket := by
    rintro bracket member rfl
    simp only [List.mem_cons, List.not_mem_nil, or_false] at member
    rcases member with rfl | rfl | rfl
    · exact not_isWord_of_isEscapable rfl word
    · exact not_isWord_of_isEscapable rfl word
    · exact absurd word (by decide +kernel)
  cases written with
  | escape escapable =>
      obtain rfl : _ = character := by simpa using last
      exact absurd word (not_isWord_of_isEscapable escapable)
  | columns | colon => exact absurd rfl notTable
  | alternatives => exact ⟨_, rfl⟩
  | @enum content | @optional content =>
      rw [getLast?_parenthesised] at last
      exact absurd (Option.some.inj last).symm (notBracket ')' (by simp))
  | @parameter type name =>
      rw [← List.cons_append, List.getLast?_concat] at last
      exact absurd (Option.some.inj last).symm (notBracket '}' (by simp))
  | anonymous => exact absurd (Option.some.inj last).symm (notBracket '}' (by simp))
  | @outline name =>
      rw [outlineReference, List.cons_append, ← List.cons_append, List.getLast?_concat] at last
      exact absurd (Option.some.inj last).symm (notBracket '>' (by simp))

variable {body front rest : Text}

/-- The lexer passed a word character right before a chain, and refused the longer chain because of
the character before it. -/
theorem extendsWord_of_isAsked {character : Char}
    (asked : IsAsked part? body (front ++ [character]) rest) (chain : StartsChain rest)
    (word : isWord character) :
    IsAsked part? body front (character :: rest) ∧ front.getLast?.any extendsWord := by
  generalize whole : front ++ [character] = passed at asked
  cases asked with
  | start => simp at whole
  | @passed earlier rest own asked nothing =>
      obtain ⟨rfl, same⟩ := List.append_inj' whole rfl
      obtain rfl : character = own := by simpa using same
      refine ⟨asked, ?_⟩
      have refused := alternatives?_eq_none_of_part?_eq_none nothing
      rw [alternatives?_eq_none_iff] at refused
      exact refused.resolve_right fun notChain => notChain (startsChain_cons word chain)
  | @covered earlier stretch rest found asked recognised length =>
      -- Only a chain ends in a word character, and none ends right before another one.
      obtain ⟨own, behind, split, sameLength, written⟩ := part?_isWritten recognised
      obtain ⟨rfl, rfl⟩ := List.append_inj split (length.symm.trans sameLength)
      have last : stretch.getLast? = some character := by
        have total : (earlier ++ stretch).getLast? = some character := by rw [← whole]; simp
        rwa [List.getLast?_append_of_ne_nil _ written.ne_nil] at total
      have starts := startsWord_of_startsChain chain
      have notTable : ¬found.value.isTable := by
        intro isTable
        rw [(written.eq_of_isTable isTable).1] at starts
        exact absurd starts Bool.false_ne_true
      obtain ⟨words, value⟩ := written.eq_alternatives notTable last word
      obtain ⟨-, -, behind, split, -, boundary⟩ := boundaries_of_part? recognised value
      rw [List.append_cancel_left split] at starts
      exact absurd starts boundary

/-- Behind a character that extends a word, the lexer comes to a chain only if the run of word
characters before it stands behind an alphanumeric character of another class. -/
theorem exists_number_of_isAsked (asked : IsAsked part? body front rest) (chain : StartsChain rest)
    (extended : front.getLast?.any extendsWord) :
    ∃ earlier number run, front = earlier ++ number :: run ∧ extendsWord number ∧
      ¬isWord number ∧ ∀ character ∈ run, isWord character ∧ extendsWord character := by
  induction front using List.reverseRecOn generalizing rest with
  | nil => exact absurd extended Bool.false_ne_true
  | append_singleton front character inductionHypothesis =>
      rw [List.getLast?_concat, Option.any_some] at extended
      by_cases word : isWord character
      · obtain ⟨asked, before⟩ := extendsWord_of_isAsked asked chain word
        obtain ⟨earlier, number, run, rfl, first, other, inside⟩ :=
          inductionHypothesis asked (startsChain_cons word chain) before
        refine ⟨earlier, number, run ++ [character], by simp, first, other, ?_⟩
        intro inner member
        rcases List.mem_append.1 member with early | late
        · exact inside inner early
        · rw [List.mem_singleton.1 late]
          exact ⟨word, extended⟩
      · exact ⟨front, character, [], rfl, extended, word, by simp⟩

/-! ## From tokens to positions -/

/-- A token among those of a list of parts belongs to one of them. -/
theorem exists_part_of_flatMap_tokens {parts : List Part} {before later : List Token} {token : Token}
    (split : parts.flatMap Part.tokens = before ++ token :: later) :
    ∃ front part back inner outer, parts = front ++ part :: back ∧
      part.tokens = inner ++ token :: outer ∧ before = front.flatMap Part.tokens ++ inner ∧
      later = outer ++ back.flatMap Part.tokens := by
  induction parts generalizing before with
  | nil => simp at split
  | cons part parts inductionHypothesis =>
      rcases exists_of_append_eq_append_cons split with ⟨outer, own, rest⟩ | ⟨middle, tail, same⟩
      · exact ⟨[], part, parts, before, outer, rfl, own, rfl, rest⟩
      · obtain ⟨front, other, back, inner, outer, rfl, own, rfl, rest⟩ := inductionHypothesis tail
        exact ⟨part :: front, other, back, inner, outer, rfl, own, by simp [same], rest⟩

/-- A token other than an anchor is a token of the body. -/
theorem exists_bodyTokens_split {pattern : Pattern} {before later : List Token} {token : Token}
    (split : pattern.tokens = before ++ token :: later) (notAnchor : token.piece ≠ .anchor) :
    ∃ inner outer,
      (bodyParts (Anchored.ofPattern pattern).body).flatMap Part.tokens = inner ++ token :: outer ∧
      before = (anchorParts (Anchored.ofPattern pattern).opening).flatMap Part.tokens ++ inner ∧
      later = outer ++ (anchorParts (Anchored.ofPattern pattern).closing).flatMap Part.tokens := by
  have notIn {raw : Text} {front back : List Token}
      (same : (anchorParts raw).flatMap Part.tokens = front ++ token :: back) : False :=
    notAnchor (piece_of_mem_anchorTokens (same ▸ List.mem_append_right _ List.mem_cons_self))
  rw [tokens_eq] at split
  rcases exists_of_append_eq_append_cons split with ⟨outer, opening, -⟩ | ⟨inner, rest, same⟩
  · exact (notIn opening).elim
  · rcases exists_of_append_eq_append_cons rest with ⟨outer, body, tail⟩ | ⟨_, closing, -⟩
    · exact ⟨inner, outer, body, same, tail⟩
    · exact (notIn closing).elim

/-- Nothing in an optional group is a chain of words, so a chain is a part of its own. -/
theorem Part.WellFormed.eq_token {part : Part} {early late : List Token} {token : Token}
    {words : List Text} (wellFormed : part.WellFormed) (own : part.tokens = early ++ token :: late)
    (chain : token.piece = .alternatives words) : part = .token token ∧ early = [] := by
  cases part with
  | token single =>
      rw [Part.tokens, List.singleton_eq_append_iff] at own
      rcases own with ⟨rfl, same⟩ | ⟨_, same⟩
      · obtain ⟨rfl, -⟩ := List.cons_eq_cons.1 same
        exact ⟨rfl, rfl⟩
      · simp at same
  | optional inside =>
      have member : token ∈ (Part.optional inside).tokens := by simp [own]
      simp only [Part.tokens, List.cons_append, List.mem_cons, List.mem_append, List.not_mem_nil,
        or_false] at member
      rcases member with rfl | member | rfl
      · contradiction
      · have inline := (wellFormed.2 token member).1
        rw [chain] at inline
        contradiction
      · contradiction

/-- A chain of words among the tokens of a body is found by the scan. -/
theorem exists_scan_split {body : Text} {inner outer : List Token} {token : Token}
    {words : List Text}
    (split : (bodyParts body).flatMap Part.tokens = inner ++ token :: outer)
    (chain : token.piece = .alternatives words) :
    ∃ before after, scan part? body = before ++ .construct (.token token) :: after ∧
      inner.flatMap Token.raw = before.flatMap (Span.covered Part.raw) := by
  obtain ⟨front, part, back, early, late, parts, own, rfl, -⟩ := exists_part_of_flatMap_tokens split
  have inBody : part ∈ bodyParts body := by simp [parts]
  obtain ⟨rfl, rfl⟩ := (wellFormed_of_mem_bodyParts inBody).eq_token own chain
  rw [bodyParts, List.map_eq_append_iff] at parts
  obtain ⟨before, rest, scanned, rfl, same⟩ := parts
  obtain ⟨span, after, rfl, single, -⟩ := List.map_eq_cons_iff.1 same
  cases span with
  | plain text =>
      obtain rfl := Part.token.inj single
      contradiction
  | construct found =>
      obtain rfl : found = .token token := single
      refine ⟨before, after, scanned, ?_⟩
      rw [List.append_nil, List.flatMap_assoc, List.flatMap_map]
      exact congrArg before.flatMap (funext raw_part)

/-! ## The boundaries of a chain -/

/-- Whether a text ends in word characters that stand directly behind an alphanumeric character of
another class, and of which only the last one does not extend a word. -/
def EndsInRefusedRun (text : Text) : Prop :=
  ∃ earlier number run last, text = earlier ++ number :: (run ++ [last]) ∧
    (isAlphanumeric number ∧ ¬isWord number) ∧
    (∀ character ∈ run, isWord character ∧ extendsWord character) ∧
    isWord last ∧ ¬extendsWord last

theorem isAlphanumeric_of_extendsWord {character : Char} (extending : extendsWord character)
    (other : ¬isWord character) : isAlphanumeric character := by
  rw [extendsWord, Bool.or_eq_true, beq_iff_eq] at extending
  rcases extending with alphanumeric | rfl
  · exact alphanumeric
  · exact absurd (by decide +kernel) other

/-- A word character before a chain ends a run that the lexer refused. -/
theorem endsInRefusedRun_of_isAsked (asked : IsAsked part? body front rest)
    (chain : StartsChain rest) (free : ¬front.getLast?.any extendsWord)
    (word : front.getLast?.any isWord) : EndsInRefusedRun front := by
  cases front using List.reverseRecOn with
  | nil => exact absurd word Bool.false_ne_true
  | append_singleton front last =>
      rw [List.getLast?_concat, Option.any_some] at free word
      obtain ⟨asked, extended⟩ := extendsWord_of_isAsked asked chain word
      obtain ⟨earlier, number, run, rfl, extending, other, inside⟩ :=
        exists_number_of_isAsked asked (startsChain_cons word chain) extended
      have alphanumeric := isAlphanumeric_of_extendsWord extending other
      exact ⟨earlier, number, run, last, by simp, ⟨alphanumeric, other⟩, inside, word, free⟩

/-- Where a chain of words stands in the body of a pattern. -/
theorem exists_body_split {pattern : Pattern} {before later : List Token} {raw : Text}
    {words : List Text} (split : pattern.tokens = before ++ ⟨.alternatives words, raw⟩ :: later) :
    ∃ front behind, IsAsked part? (Anchored.ofPattern pattern).body front (raw ++ behind) ∧
      before.flatMap Token.raw = (Anchored.ofPattern pattern).opening ++ front ∧
      later.flatMap Token.raw = behind ++ (Anchored.ofPattern pattern).closing ∧
      StartsChain (raw ++ behind) ∧ ¬front.getLast?.any extendsWord ∧ ¬startsWord behind := by
  obtain ⟨inner, outer, inBody, rfl, rfl⟩ := exists_bodyTokens_split split Piece.noConfusion
  obtain ⟨early, late, scanned, covered⟩ := exists_scan_split inBody rfl
  obtain ⟨rest, found, asked, recognised, value⟩ :=
    exists_isAsked_of_scan advances_part? covers_part? scanned
  obtain ⟨starts, free, behind, rfl, -, boundary⟩ := boundaries_of_part? recognised value
  have anchorText (raw : Text) :
      ((anchorParts raw).flatMap Part.tokens).flatMap Token.raw = raw := by
    rw [List.flatMap_assoc]
    exact flatMap_raw_anchorParts raw
  have outerText : outer.flatMap Token.raw = behind := by
    have whole := flatMap_raw_bodyParts (Anchored.ofPattern pattern).body
    rw [show Part.raw = fun part => part.tokens.flatMap Token.raw from rfl, ← List.flatMap_assoc,
      inBody, asked.split, List.flatMap_append, List.flatMap_cons, covered] at whole
    exact List.append_cancel_left (List.append_cancel_left whole)
  refine ⟨_, behind, asked, ?_, ?_, starts, free, boundary⟩
  · rw [List.flatMap_append, anchorText, covered]
  · rw [List.flatMap_append, anchorText, outerText]

/-- The closing anchor is no word character. -/
theorem head?_any_append_closing (pattern : Pattern) (behind : Text) :
    (behind ++ (Anchored.ofPattern pattern).closing).head?.any isWord = startsWord behind := by
  have dollar : isWord '$' = false := by decide +kernel
  cases behind with
  | nil =>
      rcases (divides_ofPattern pattern).closed with ⟨none, -⟩ | ⟨closing, -⟩ <;>
        simp [*, startsWord]
  | cons character rest => rfl

/-- What does not hold of the opening anchor is not changed by it. -/
theorem getLast?_any_opening_append {holds : Char → Bool} (caret : holds '^' = false)
    (pattern : Pattern) (front : Text) :
    ((Anchored.ofPattern pattern).opening ++ front).getLast?.any holds =
      front.getLast?.any holds := by
  cases front using List.reverseRecOn with
  | nil => rcases (divides_ofPattern pattern).opened with ⟨none, -⟩ | opening <;> simp [*]
  | append_singleton front last => simp [← List.append_assoc]

/-- No word character follows a chain of words. Before it stands no character that extends a word,
and a word character only at the end of a run that stands behind an alphanumeric character of
another class. -/
theorem chain_boundaries {pattern : Pattern} {before later : List Token} {token : Token}
    {words : List Text} (split : pattern.tokens = before ++ token :: later)
    (chain : token.piece = .alternatives words) :
    ¬(later.flatMap Token.raw).head?.any isWord ∧
      ¬(before.flatMap Token.raw).getLast?.any extendsWord ∧
      ((before.flatMap Token.raw).getLast?.any isWord ↔
        EndsInRefusedRun (before.flatMap Token.raw)) := by
  obtain ⟨piece, raw⟩ := token
  obtain rfl : piece = .alternatives words := chain
  obtain ⟨front, behind, asked, frontText, behindText, starts, free, boundary⟩ :=
    exists_body_split split
  have notWord : isWord '^' = false := by decide +kernel
  have notExtending : extendsWord '^' = false := by decide +kernel
  have word := getLast?_any_opening_append notWord pattern front
  have extended := getLast?_any_opening_append notExtending pattern front
  rw [frontText, behindText, head?_any_append_closing, extended]
  refine ⟨boundary, free, ?_, ?_⟩
  · intro isWord
    rw [word] at isWord
    obtain ⟨earlier, number, run, last, rfl, ends⟩ :=
      endsInRefusedRun_of_isAsked asked starts free isWord
    exact ⟨(Anchored.ofPattern pattern).opening ++ earlier, number, run, last, by simp, ends⟩
  · rintro ⟨earlier, number, run, last, same, -, -, word, -⟩
    rw [same, ← List.cons_append, ← List.append_assoc, List.getLast?_concat]
    exact word

def pressPattern : Pattern := "press ok/cancel twice".toList

theorem chain_boundaries_press :
    pressPattern.tokens = [⟨.text "press ".toList, "press ".toList⟩] ++
        ⟨.alternatives ["ok".toList, "cancel".toList], "ok/cancel".toList⟩ ::
          [⟨.text " twice".toList, " twice".toList⟩] ∧
      ¬" twice".toList.head?.any isWord ∧ ¬"press ".toList.getLast?.any extendsWord ∧
      ("press ".toList.getLast?.any isWord ↔ EndsInRefusedRun "press ".toList) := by
  have split : pressPattern.tokens = [⟨.text "press ".toList, "press ".toList⟩] ++
      ⟨.alternatives ["ok".toList, "cancel".toList], "ok/cancel".toList⟩ ::
        [⟨.text " twice".toList, " twice".toList⟩] := by decide +kernel
  exact ⟨split, chain_boundaries split rfl⟩

/-- The chain that begins with a mark is refused behind a superscript digit, and the shorter one
behind the mark is found. -/
theorem chain_splits_marked_word :
    ¬∀ (pattern : Pattern) (before later : List Token) (token : Token) (words : List Text),
      pattern.tokens = before ++ token :: later → token.piece = .alternatives words →
      ¬(before.flatMap Token.raw).getLast?.any isWord ∧
        ¬(later.flatMap Token.raw).head?.any isWord := by
  intro boundaries
  have split : Pattern.tokens "\u00b2\u0301b/c".toList =
      [⟨.text "\u00b2\u0301".toList, "\u00b2\u0301".toList⟩] ++
        ⟨.alternatives ["b".toList, "c".toList], "b/c".toList⟩ :: [] := by decide +kernel
  exact (boundaries _ _ _ _ _ split rfl).1 (by decide +kernel)

end StepGrammar
