import StepGrammar.Proofs.Pattern.Tokens
import StepGrammar.Proofs.Text.Join

/-!
Contract: how each construct is written in a pattern.

Every recogniser is turned round into a statement about the text that it reads, and `Part.IsWritten`
collects the statements: one case for each construct, with the stretch that it covers and the text
behind it. Theorems about where constructs stand need these cases and none of the recognisers.
-/

namespace StepGrammar

/-! ## Groups -/

def isParenthesis (character : Char) : Bool := character == '(' || character == ')'

/-- Whether every parenthesis of a text, before which the given character stands, is directly
preceded by a backslash, and the text does not end in one. -/
def escapesParentheses (previous : Option Char) : Text → Bool
  | [] => previous != some '\\'
  | character :: rest =>
    (!isParenthesis character || previous == some '\\') && escapesParentheses (some character) rest

theorem escapesParentheses_of_ne {previous : Option Char} (different : previous ≠ some '\\')
    (text : Text) : escapesParentheses previous text = escapesParentheses none text := by
  have notBackslash : (previous == some '\\') = false := beq_eq_false_iff_ne.2 different
  cases text with
  | nil => rw [escapesParentheses, escapesParentheses, bne, notBackslash]; rfl
  | cons character rest => rw [escapesParentheses, escapesParentheses, notBackslash]; rfl

theorem escapesParentheses_escape {character : Char} (escapable : isEscapable character)
    (text : Text) :
    escapesParentheses none ('\\' :: character :: text) = escapesParentheses none text := by
  have different : some character ≠ some '\\' := by
    rintro same
    obtain rfl := Option.some.inj same
    exact absurd escapable (by decide)
  have notParenthesis : isParenthesis '\\' = false := by decide
  rw [escapesParentheses, escapesParentheses, notParenthesis, escapesParentheses_of_ne different]
  simp

/-- A character that begins no escape stands before the content of a group without changing it. -/
theorem escapesParentheses_kept {character next : Char} {rest content behind : Text}
    (notParenthesis : isParenthesis character = false)
    (kept : ¬(character == '\\' && isEscapable next))
    (split : next :: rest = content ++ ')' :: behind) :
    escapesParentheses none (character :: content) = escapesParentheses none content := by
  rw [escapesParentheses, notParenthesis, Bool.not_false, Bool.true_or, Bool.true_and]
  by_cases backslash : character = '\\'
  · have notEscapable : isEscapable next = false := by simpa [backslash] using kept
    cases content with
    | nil =>
        obtain ⟨rfl, -⟩ := List.cons_eq_cons.1 split
        exact absurd notEscapable (by decide)
    | cons first content =>
        obtain ⟨rfl, -⟩ := List.cons_eq_cons.1 split
        have plain : isParenthesis next = false := by
          by_contra isParen
          simp only [isParenthesis, Bool.not_eq_false, Bool.or_eq_true, beq_iff_eq] at isParen
          rcases isParen with rfl | rfl <;> exact absurd notEscapable (by decide)
        rw [escapesParentheses, escapesParentheses, plain]
        rfl
  · exact escapesParentheses_of_ne (by simpa using backslash) content

/-- Directly before a parenthesis of such a text stands a backslash. -/
theorem getLast?_of_escapesParentheses {previous : Option Char} {character : Char}
    {front back : Text} (parenthesis : isParenthesis character)
    (escaped : escapesParentheses previous (front ++ character :: back)) :
    front.getLast?.or previous = some '\\' := by
  induction front generalizing previous with
  | nil =>
      rw [List.nil_append, escapesParentheses, parenthesis, Bool.not_true, Bool.false_or,
        Bool.and_eq_true, beq_iff_eq] at escaped
      exact escaped.1
  | cons first front inductionHypothesis =>
      rw [List.cons_append, escapesParentheses, Bool.and_eq_true] at escaped
      rw [getLast?_cons_or]
      exact inductionHypothesis escaped.2

/-- At the end of such a text stands no backslash. -/
theorem getLast?_ne_of_escapesParentheses {previous : Option Char} {text : Text}
    (escaped : escapesParentheses previous text) : text.getLast?.or previous ≠ some '\\' := by
  induction text generalizing previous with
  | nil => simpa [escapesParentheses] using escaped
  | cons first rest inductionHypothesis =>
      rw [escapesParentheses, Bool.and_eq_true] at escaped
      rw [getLast?_cons_or]
      exact inductionHypothesis escaped.2

/-- The content of a group ends at the first parenthesis that no backslash precedes. -/
theorem groupContent?_eq_some_iff {text content : Text} :
    groupContent? text = some content ↔
      ∃ behind, text = content ++ ')' :: behind ∧ escapesParentheses none content := by
  fun_induction groupContent? text generalizing content with
  | case1 => simp
  | case2 character closes =>
      obtain rfl := eq_of_beq closes
      cases content with
      | nil => simp [escapesParentheses]
      | cons first content => simp
  | case3 character notClosing =>
      rw [beq_iff_eq] at notClosing
      cases content with
      | nil => simp [notClosing]
      | cons first content => simp
  | case4 first second rest closes =>
      obtain rfl := eq_of_beq closes
      constructor
      · intro found
        obtain rfl := Option.some.inj found
        exact ⟨second :: rest, rfl, rfl⟩
      · rintro ⟨behind, split, escaped⟩
        cases content with
        | nil => rfl
        | cons character content =>
            obtain ⟨rfl, -⟩ := List.cons_eq_cons.1 split
            exact absurd escaped Bool.false_ne_true
  | case5 first second rest notClosing opens =>
      obtain rfl := eq_of_beq opens
      constructor
      · intro found
        contradiction
      · rintro ⟨behind, split, escaped⟩
        cases content with
        | nil => simp at split
        | cons character content =>
            obtain ⟨rfl, -⟩ := List.cons_eq_cons.1 split
            exact absurd escaped Bool.false_ne_true
  | case6 first second rest notClosing notOpening escapes inductionHypothesis =>
      rw [Bool.and_eq_true, beq_iff_eq] at escapes
      obtain ⟨rfl, escapable⟩ := escapes
      rw [Option.map_eq_some_iff]
      constructor
      · rintro ⟨inner, found, rfl⟩
        obtain ⟨behind, rfl, escaped⟩ := inductionHypothesis.1 found
        exact ⟨behind, rfl, by rwa [escapesParentheses_escape escapable]⟩
      · rintro ⟨behind, split, escaped⟩
        match content, split, escaped with
        | [], split, _ => simp at split
        | [character], split, escaped =>
            obtain ⟨rfl, -⟩ := List.cons_eq_cons.1 split
            exact absurd escaped (by decide)
        | character :: other :: content, split, escaped =>
            simp only [List.cons_append, List.cons.injEq] at split
            obtain ⟨rfl, rfl, split⟩ := split
            rw [escapesParentheses_escape escapable] at escaped
            exact ⟨content, inductionHypothesis.2 ⟨behind, split, escaped⟩, rfl⟩
  | case7 first second rest notClosing notOpening kept inductionHypothesis =>
      have notParenthesis : isParenthesis first = false := by
        simp [isParenthesis, notClosing, notOpening]
      rw [Option.map_eq_some_iff]
      constructor
      · rintro ⟨inner, found, rfl⟩
        obtain ⟨behind, split, escaped⟩ := inductionHypothesis.1 found
        refine ⟨behind, by rw [split]; rfl, ?_⟩
        rwa [escapesParentheses_kept notParenthesis kept split]
      · rintro ⟨behind, split, escaped⟩
        cases content with
        | nil =>
            obtain ⟨rfl, -⟩ := List.cons_eq_cons.1 split
            exact absurd rfl notClosing
        | cons character content =>
            rw [List.cons_append, List.cons.injEq] at split
            obtain ⟨rfl, split⟩ := split
            rw [escapesParentheses_kept notParenthesis kept split] at escaped
            exact ⟨content, inductionHypothesis.2 ⟨behind, split, escaped⟩, rfl⟩

def parenthesised (content : Text) : Text := '(' :: (content ++ [')'])

theorem getLast?_parenthesised (content : Text) : (parenthesised content).getLast? = some ')' :=
  List.getLast?_concat (l := '(' :: content)

theorem length_parenthesised (content : Text) :
    (parenthesised content).length = groupLength content := by
  simp [parenthesised, groupLength]

theorem group?_eq_some_iff {text content : Text} :
    group? text = some content ↔
      ∃ behind, text = parenthesised content ++ behind ∧ escapesParentheses none content := by
  cases text with
  | nil => simp [group?, parenthesised]
  | cons character rest =>
      rw [group?]
      by_cases opens : character = '('
      · subst opens
        simp [groupContent?_eq_some_iff, parenthesised]
      · simp [parenthesised, opens]

/-! ## Tables -/

/-- A column list between blanks with the colon behind it. -/
def columnSuffix (blanks content gap trailing : Text) : Text :=
  blanks ++ '(' :: (content ++ ')' :: (gap ++ ':' :: trailing))

theorem columnSuffix_eq_append (blanks content gap trailing : Text) :
    columnSuffix blanks content gap trailing =
      (blanks ++ '(' :: (content ++ ')' :: gap)) ++ ':' :: trailing := by
  simp [columnSuffix]

/-- A text that ends in a colon and blanks has one of them as its last character. -/
theorem getLast?_ne_of_trailing {front trailing : Text} {character : Char}
    (trails : trailing.all isBlank) (visible : ¬isBlank character) (different : character ≠ ':') :
    (front ++ ':' :: trailing).getLast? ≠ some character := by
  rw [List.getLast?_append_of_ne_nil _ (List.cons_ne_nil _ _)]
  intro last
  rcases List.mem_cons.1 (List.mem_of_getLast? last) with colon | blank
  · exact different colon
  · exact Text.notMem_of_all trails visible blank

def listedColumns (content : Text) : Option (List Text) :=
  if (columnNames content).isEmpty then none else some (columnNames content)

theorem isClosingColon_iff {text : Text} :
    isClosingColon text ↔ ∃ trailing, text = ':' :: trailing ∧ trailing.all isBlank := by
  cases text with
  | nil => simp [isClosingColon]
  | cons character rest => simp [isClosingColon]

theorem columnList?_eq_some_iff {text content : Text} :
    columnList? text = some content ↔
      ∃ blanks gap trailing, text = columnSuffix blanks content gap trailing ∧
        blanks.all isBlank ∧ content.all isColumnCharacter ∧ gap.all isBlank ∧
        trailing.all isBlank := by
  constructor
  · intro found
    obtain ⟨blanks, split, leading⟩ := Text.exists_trimStart text
    unfold columnList? at found
    split at found
    case h_1 => contradiction
    case h_2 character rest trimmed =>
      rw [Option.ite_none_right_eq_some, beq_iff_eq] at found
      obtain ⟨rfl, found⟩ := found
      split at found
      case h_1 => contradiction
      case h_2 closing remaining dropped =>
        rw [Option.ite_none_right_eq_some, Bool.and_eq_true, beq_iff_eq] at found
        obtain ⟨⟨rfl, colon⟩, taken⟩ := found
        obtain rfl := Option.some.inj taken
        obtain ⟨trailing, trimmedRest, trails⟩ := isClosingColon_iff.1 colon
        obtain ⟨gap, gapSplit, between⟩ := Text.exists_trimStart remaining
        refine ⟨blanks, gap, trailing, ?_, leading, List.all_takeWhile, between, trails⟩
        rw [columnSuffix, ← trimmedRest, ← gapSplit, ← dropped, List.takeWhile_append_dropWhile,
          ← trimmed, ← split]
  · rintro ⟨blanks, gap, trailing, rfl, leading, allowed, between, trails⟩
    have notBlank : isBlank '(' = false ∧ isBlank ':' = false := by decide
    have stops : isColumnCharacter ')' = false := by decide
    have trimmed : Text.trimStart (columnSuffix blanks content gap trailing) =
        '(' :: (content ++ ')' :: (gap ++ ':' :: trailing)) :=
      Text.trimStart_append leading (by simp [notBlank])
    have dropped : (content ++ ')' :: (gap ++ ':' :: trailing)).dropWhile isColumnCharacter =
        ')' :: (gap ++ ':' :: trailing) := by
      rw [List.dropWhile_append_of_pos (List.all_eq_true.1 allowed)]
      exact List.dropWhile_cons_of_neg (by simp [stops])
    have taken : (content ++ ')' :: (gap ++ ':' :: trailing)).takeWhile isColumnCharacter =
        content := by
      rw [List.takeWhile_append_of_pos (List.all_eq_true.1 allowed),
        List.takeWhile_cons_of_neg (by simp [stops]), List.append_nil]
    have closes : isClosingColon (Text.trimStart (gap ++ ':' :: trailing)) := by
      rw [Text.trimStart_append between (by simp [notBlank])]
      exact isClosingColon_iff.2 ⟨trailing, rfl, trails⟩
    rw [columnList?, trimmed]
    simp only [beq_self_eq_true, if_true, dropped, taken, closes, Bool.and_self]

/-! ## Parameters -/

def nameSuffix : Option Text → Text
  | none => []
  | some name => ':' :: name

theorem length_nameSuffix (name : Option Text) :
    (nameSuffix name).length = parameterNameLength name := by
  cases name <;> rfl

theorem parameterName?_eq_some {text : Text} {name : Option Text}
    (found : parameterName? text = some name) :
    ∃ behind, text = nameSuffix name ++ '}' :: behind ∧ ∀ word ∈ name, word.all isWord := by
  cases text with
  | nil => contradiction
  | cons character rest =>
      rw [parameterName?] at found
      split at found
      case isTrue closes =>
        obtain rfl := Option.some.inj found
        obtain rfl := eq_of_beq closes
        exact ⟨rest, rfl, by simp⟩
      case isFalse =>
        rw [Option.ite_none_right_eq_some, beq_iff_eq] at found
        obtain ⟨rfl, found⟩ := found
        split at found
        case h_2 => contradiction
        case h_1 first others closing behind taken dropped =>
          rw [Option.ite_none_right_eq_some, beq_iff_eq] at found
          obtain ⟨rfl, named⟩ := found
          obtain rfl := Option.some.inj named
          refine ⟨behind, ?_, ?_⟩
          · rw [nameSuffix, ← taken, ← dropped, List.cons_append, List.takeWhile_append_dropWhile]
          · rintro word member
            obtain rfl := Option.mem_some.1 member
            rw [← taken]
            exact List.all_takeWhile

theorem parameter?_eq_some {text : Text} {found : Found Piece}
    (recognised : parameter? text = some found) :
    ∃ type name behind, text = '{' :: (type.name ++ nameSuffix name ++ '}' :: behind) ∧
      (∀ word ∈ name, word.all isWord) ∧
      found = ⟨.parameter type name, type.name.length + parameterNameLength name + 2⟩ := by
  cases text with
  | nil => contradiction
  | cons character rest =>
      rw [parameter?, Option.ite_none_right_eq_some, beq_iff_eq] at recognised
      obtain ⟨rfl, recognised⟩ := recognised
      split at recognised
      case h_1 => contradiction
      case h_2 type typed =>
        obtain ⟨name, named, rfl⟩ := Option.map_eq_some_iff.1 recognised
        obtain ⟨behind, split, word⟩ := parameterName?_eq_some named
        have sameName := List.find?_some typed
        have spelled : type.name = rest.takeWhile isTypeCharacter := eq_of_beq sameName
        refine ⟨type, name, behind, ?_, word, rfl⟩
        rw [spelled, List.append_assoc, ← split, List.takeWhile_append_dropWhile]

/-! ## Alternatives -/

theorem alternatives?_eq_some {previous : Option Char} {text : Text} {found : Found Piece}
    (recognised : alternatives? previous text = some found) :
    ∃ words behind, text = Text.join ['/'] words ++ behind ∧ 2 ≤ words.length ∧ [] ∉ words ∧
      (Text.join ['/'] words).all isChainCharacter ∧
      found = ⟨.alternatives words, (Text.join ['/'] words).length⟩ := by
  unfold alternatives? at recognised
  split at recognised
  case isTrue => contradiction
  case isFalse =>
    obtain ⟨several, same⟩ := Option.ite_none_right_eq_some.1 recognised
    obtain ⟨others, split, filled⟩ : ∃ others,
        (text.takeWhile isChainCharacter).splitOn '/' = chainWords text ++ others ∧
          [] ∉ chainWords text := by
      unfold chainWords at several ⊢
      split at several
      case isTrue starts =>
        rw [if_pos starts]
        refine ⟨_, List.takeWhile_append_dropWhile.symm, fun member => ?_⟩
        simpa using List.mem_takeWhile_imp member
      case isFalse => simp at several
    have chain : Text.join ['/'] (chainWords text) <+: text.takeWhile isChainCharacter := by
      have whole := Text.join_prefix ['/'] (chainWords text) others
      rwa [← split, Text.join, Text.join, List.intercalate_splitOn] at whole
    obtain ⟨behind, same'⟩ := chain.trans (List.takeWhile_prefix _)
    refine ⟨chainWords text, behind, same'.symm, several, filled, ?_, (Option.some.inj same).symm⟩
    rw [List.all_eq_true]
    exact fun character member => List.mem_takeWhile_imp (chain.subset member)

/-! ## All constructs -/

/-- Whether a part is written as the stretch that stands in a pattern before the other text. -/
inductive Part.IsWritten : Part → Text → Text → Prop
  | escape {character : Char} {behind : Text} (escapable : isEscapable character) :
      IsWritten (.token ⟨.escape character, ['\\', character]⟩) ['\\', character] behind
  | columns {blanks content gap trailing : Text} (leading : blanks.all isBlank)
      (allowed : content.all isColumnCharacter) (between : gap.all isBlank)
      (trails : trailing.all isBlank) :
      IsWritten
        (.token ⟨.table (listedColumns content), columnSuffix blanks content gap trailing⟩)
        (columnSuffix blanks content gap trailing) []
  | colon {trailing : Text} (trails : trailing.all isBlank) :
      IsWritten (.token ⟨.table none, ':' :: trailing⟩) (':' :: trailing) []
  | enum {content behind : Text} (escaped : escapesParentheses none content)
      (listed : '|' ∈ content) (filled : enumValues content ≠ []) :
      IsWritten (.token ⟨.enum (enumValues content), parenthesised content⟩)
        (parenthesised content) behind
  | parameter {type : ParameterType} {name : Option Text} {behind : Text}
      (word : ∀ written ∈ name, written.all isWord) :
      IsWritten
        (.token ⟨.parameter type name, '{' :: (type.name ++ nameSuffix name ++ ['}'])⟩)
        ('{' :: (type.name ++ nameSuffix name ++ ['}'])) behind
  | anonymous {behind : Text} : IsWritten (.token ⟨.anonymous, ['{', '}']⟩) ['{', '}'] behind
  | optional {content behind : Text} (escaped : escapesParentheses none content)
      (barFree : '|' ∉ content) (filled : ¬content.all isBlank) :
      IsWritten (.optional (groupTokens content)) (parenthesised content) behind
  | alternatives {words : List Text} {behind : Text} (several : 2 ≤ words.length)
      (filled : [] ∉ words) (chain : (Text.join ['/'] words).all isChainCharacter) :
      IsWritten (.token ⟨.alternatives words, Text.join ['/'] words⟩) (Text.join ['/'] words) behind
  | outline {name behind : Text} (bracketFree : name.all isOutlineCharacter)
      (starts : name.head?.any fun first => !isBlank first) :
      IsWritten (.token ⟨.outline name, outlineReference name⟩) (outlineReference name) behind

def Found.IsWritten (text : Text) (found : Found Part) : Prop :=
  ∃ stretch behind, text = stretch ++ behind ∧ found.length = stretch.length ∧
    found.value.IsWritten stretch behind

theorem Found.isWritten_part {text : Text} {found : Found Piece} (stretch behind : Text)
    (split : text = stretch ++ behind) (length : found.length = stretch.length)
    (written : (Part.token ⟨found.value, stretch⟩).IsWritten stretch behind) :
    (found.part text).IsWritten text := by
  refine ⟨stretch, behind, split, length, ?_⟩
  have taken : text.take found.length = stretch := by rw [split, length, List.take_left]
  rw [Found.part, Found.token, taken]
  exact written

section Recognised

variable {text : Text} {found : Found Piece}

theorem escape?_isWritten (recognised : escape? text = some found) :
    (found.part text).IsWritten text := by
  unfold escape? at recognised
  split at recognised
  case h_2 => contradiction
  case h_1 first second rest =>
    rw [Option.ite_none_right_eq_some, Bool.and_eq_true, beq_iff_eq] at recognised
    obtain ⟨⟨rfl, escapable⟩, same⟩ := recognised
    obtain rfl := Option.some.inj same
    exact Found.isWritten_part ['\\', second] rest rfl rfl (.escape escapable)

theorem table?_isWritten (recognised : table? text = some found) :
    (found.part text).IsWritten text := by
  unfold table? at recognised
  split at recognised
  case h_1 content listed =>
    obtain rfl := Option.some.inj recognised
    obtain ⟨blanks, gap, trailing, rfl, leading, allowed, between, trails⟩ :=
      columnList?_eq_some_iff.1 listed
    exact Found.isWritten_part _ [] (List.append_nil _).symm rfl
      (.columns leading allowed between trails)
  case h_2 =>
    rw [Option.ite_none_right_eq_some] at recognised
    obtain ⟨colon, same⟩ := recognised
    obtain rfl := Option.some.inj same
    obtain ⟨trailing, rfl, trails⟩ := isClosingColon_iff.1 colon
    exact Found.isWritten_part _ [] (List.append_nil _).symm rfl (.colon trails)

theorem enum?_isWritten (recognised : enum? text = some found) :
    (found.part text).IsWritten text := by
  unfold enum? at recognised
  split at recognised
  case h_1 => contradiction
  case h_2 content grouped =>
    rw [Option.ite_none_right_eq_some, Bool.and_eq_true] at recognised
    obtain ⟨⟨listed, filled⟩, same⟩ := recognised
    obtain rfl := Option.some.inj same
    obtain ⟨behind, rfl, escaped⟩ := group?_eq_some_iff.1 grouped
    refine Found.isWritten_part _ behind rfl (length_parenthesised content).symm
      (.enum escaped ?_ ?_)
    · simpa using listed
    · simpa using filled

theorem parameter?_isWritten (recognised : parameter? text = some found) :
    (found.part text).IsWritten text := by
  obtain ⟨type, name, behind, rfl, word, rfl⟩ := parameter?_eq_some recognised
  refine Found.isWritten_part ('{' :: (type.name ++ nameSuffix name ++ ['}'])) behind ?_ ?_
    (.parameter word)
  · simp
  · simp [length_nameSuffix]
    omega

theorem anonymous?_isWritten (recognised : anonymous? text = some found) :
    (found.part text).IsWritten text := by
  unfold anonymous? at recognised
  split at recognised
  case h_2 => contradiction
  case h_1 first second rest =>
    rw [Option.ite_none_right_eq_some, Bool.and_eq_true, beq_iff_eq, beq_iff_eq] at recognised
    obtain ⟨⟨rfl, rfl⟩, same⟩ := recognised
    obtain rfl := Option.some.inj same
    exact Found.isWritten_part ['{', '}'] rest rfl rfl .anonymous

theorem optionalContent?_isWritten {content : Text}
    (recognised : optionalContent? text = some content) :
    (optionalPart content).IsWritten text := by
  unfold optionalContent? at recognised
  split at recognised
  case h_1 => contradiction
  case h_2 inside grouped =>
    rw [Option.ite_none_left_eq_some] at recognised
    obtain ⟨filled, same⟩ := recognised
    obtain rfl := Option.some.inj same
    obtain ⟨behind, rfl, escaped⟩ := group?_eq_some_iff.1 grouped
    simp only [Bool.or_eq_true, List.contains_iff_mem, not_or] at filled
    exact ⟨_, behind, rfl, (length_parenthesised inside).symm,
      .optional escaped filled.1 filled.2⟩

theorem alternatives?_isWritten {previous : Option Char}
    (recognised : alternatives? previous text = some found) : (found.part text).IsWritten text := by
  obtain ⟨words, behind, rfl, several, filled, chain, rfl⟩ := alternatives?_eq_some recognised
  exact Found.isWritten_part _ behind rfl rfl (.alternatives several filled chain)

theorem outline?_isWritten (recognised : outline? text = some found) :
    (found.part text).IsWritten text := by
  obtain ⟨name, named, rfl⟩ := Option.map_eq_some_iff.1 recognised
  obtain ⟨behind, rfl, bracketFree, starts⟩ := outlineName?_eq_some_iff.1 named
  exact Found.isWritten_part _ behind rfl (by simp [outlineReference])
    (.outline bracketFree starts)

end Recognised

/-- Every part that is found is written at the start of the text. -/
theorem part?_isWritten {previous : Option Char} {text : Text} {found : Found Part}
    (recognised : part? previous text = some found) : found.IsWritten text := by
  cases isFoundBy_of_part? recognised with
  | escape own => exact escape?_isWritten own
  | table own => exact table?_isWritten own
  | enum own => exact enum?_isWritten own
  | parameter own => exact parameter?_isWritten own
  | anonymous own => exact anonymous?_isWritten own
  | optional own => exact optionalContent?_isWritten own
  | alternatives own => exact alternatives?_isWritten own
  | outline own => exact outline?_isWritten own

end StepGrammar
