import StepGrammar.Fallback
import StepGrammar.Proofs.Pattern.Declarations

/-!
Contract: how the pattern made up from a step text is written.

Every parenthesis and slash stands behind a backslash, so there are no choices, optional groups,
column lists or chains of words. Neither end of the pattern is an anchor. The angle brackets are
those of the plain stretches of the text.
-/

namespace StepGrammar

/-! ## One character of a literal -/

/-- Whether the first character of a literal gets an escape. -/
def isEscaped (opens ends : Bool) (character : Char) (rest : Text) : Bool :=
  needsBoundaryEscape opens ends character rest || isPatternBracket character

variable {opens ends : Bool} {character : Char} {rest literal : Text}

theorem escapeLiteral_of_isEscaped (escaped : isEscaped opens ends character rest) :
    escapeLiteral opens ends (character :: rest) =
      '\\' :: character :: escapeLiteral false ends rest :=
  if_pos escaped

theorem escapeLiteral_of_not_isEscaped (kept : ¬isEscaped opens ends character rest) :
    escapeLiteral opens ends (character :: rest) = character :: escapeLiteral false ends rest :=
  if_neg kept

theorem isEscapable_of_isEscaped (escaped : isEscaped opens ends character rest) :
    isEscapable character := by
  simp only [isEscaped, needsBoundaryEscape, isPatternBracket, Bool.or_eq_true, Bool.and_eq_true,
    beq_iff_eq, List.contains_iff_mem, List.mem_cons, List.not_mem_nil, or_false] at escaped
  simp only [isEscapable, escapables, List.contains_iff_mem, List.mem_cons, List.not_mem_nil,
    or_false]
  tauto

theorem not_isPatternBracket_of_not_isEscaped (kept : ¬isEscaped opens ends character rest) :
    ¬isPatternBracket character := by
  intro bracket
  exact kept (by simp [isEscaped, bracket])

/-- A character that can be escaped is neither an angle bracket nor a blank. -/
theorem outline_of_isEscapable (escapable : isEscapable character) :
    isOutlineCharacter character ∧ isBlank character = false := by
  have all : escapables.all fun character =>
      isOutlineCharacter character && !isBlank character := by decide
  have both := List.all_eq_true.1 all character (by simpa [isEscapable] using escapable)
  simpa using both

theorem patternOfSpans_construct (opens : Bool) (found : LooseValue)
    (later : List (Span LooseValue)) :
    patternOfSpans opens (.construct found :: later) =
      ('{' :: found.type.name ++ ['}']) ++ patternOfSpans false later := by
  simp [patternOfSpans]

theorem patternOfSpans_escaped {later : List (Span LooseValue)}
    (escaped : isEscaped opens later.isEmpty character literal) :
    patternOfSpans opens (.plain (character :: literal) :: later) =
      '\\' :: character :: patternOfSpans false (.plain literal :: later) := by
  rw [patternOfSpans, escapeLiteral_of_isEscaped escaped]
  rfl

theorem patternOfSpans_kept {later : List (Span LooseValue)}
    (kept : ¬isEscaped opens later.isEmpty character literal) :
    patternOfSpans opens (.plain (character :: literal) :: later) =
      character :: patternOfSpans false (.plain literal :: later) := by
  rw [patternOfSpans, escapeLiteral_of_not_isEscaped kept]
  rfl

/-! ## Parentheses and slashes -/

/-- Whether every opening parenthesis and every slash of a text stands behind a backslash. -/
inductive Guarded : Text → Prop
  | nil : Guarded []
  | escaped {character : Char} {rest : Text} (tail : Guarded rest) :
      Guarded ('\\' :: character :: rest)
  | kept {character : Char} {rest : Text} (allowed : character ≠ '(' ∧ character ≠ '/')
      (tail : Guarded rest) : Guarded (character :: rest)

theorem Guarded.append {front back : Text}
    (allowed : ∀ character ∈ front, character ≠ '(' ∧ character ≠ '/') (tail : Guarded back) :
    Guarded (front ++ back) := by
  induction front with
  | nil => exact tail
  | cons character front inductionHypothesis =>
      have first := (List.forall_mem_cons.1 allowed).1
      have others := (List.forall_mem_cons.1 allowed).2
      exact .kept first (inductionHypothesis others)

theorem guarded_escapeLiteral (opens ends : Bool) (literal : Text) {back : Text}
    (tail : Guarded back) : Guarded (escapeLiteral opens ends literal ++ back) := by
  induction literal generalizing opens with
  | nil => exact tail
  | cons character rest inductionHypothesis =>
      by_cases escaped : isEscaped opens ends character rest
      · rw [escapeLiteral_of_isEscaped escaped]
        exact .escaped (inductionHypothesis false)
      · rw [escapeLiteral_of_not_isEscaped escaped]
        refine .kept ?_ (inductionHypothesis false)
        have notBracket := not_isPatternBracket_of_not_isEscaped escaped
        constructor
        · intro same
          subst same
          exact notBracket (by decide)
        · intro same
          subst same
          exact notBracket (by decide)

theorem guarded_patternOfSpans (opens : Bool) (spans : List (Span LooseValue)) :
    Guarded (patternOfSpans opens spans) := by
  induction spans generalizing opens with
  | nil => exact .nil
  | cons span later inductionHypothesis =>
      cases span with
      | plain literal => exact guarded_escapeLiteral opens _ literal (inductionHypothesis false)
      | construct found =>
          have allowed : ('{' :: found.type.name ++ ['}']).all fun character =>
              character != '(' && character != '/' := by
            cases found.type <;> decide
          rw [patternOfSpans_construct]
          apply Guarded.append _ (inductionHypothesis false)
          intro character member
          simpa using List.all_eq_true.1 allowed character member

theorem Guarded.slash_not_mem {text : Text} (guarded : Guarded text) :
    '/' ∉ text.takeWhile isChainCharacter := by
  induction guarded with
  | nil => exact List.not_mem_nil
  | escaped tail inductionHypothesis =>
      have notChain : isChainCharacter '\\' = false := by decide +kernel
      simp [notChain]
  | @kept character rest allowed tail inductionHypothesis =>
      rw [List.takeWhile_cons]
      split
      · simpa [allowed.2.symm] using inductionHypothesis
      · exact List.not_mem_nil

theorem Guarded.head?_trimStart {text : Text} (guarded : Guarded text) :
    (Text.trimStart text).head? ≠ some '(' := by
  induction guarded with
  | nil => simp [Text.trimStart]
  | escaped tail inductionHypothesis =>
      have notBlank : isBlank '\\' = false := by decide
      simp [Text.trimStart, notBlank]
  | @kept character rest allowed tail inductionHypothesis =>
      rw [Text.trimStart, List.dropWhile_cons]
      split
      · exact inductionHypothesis
      · simp [allowed.1]

/-! ## Anchors -/

theorem endsInDollar_append (front : Text) {back : Text} (nonempty : back ≠ [])
    (free : endsInDollar back = false) : endsInDollar (front ++ back) = false := by
  rw [endsInDollar, List.getLast?_append_of_ne_nil _ nonempty,
    List.dropLast_append_of_ne_nil nonempty]
  by_cases single : back.dropLast = []
  · have noDollar : back.getLast? ≠ some '$' := by
      intro dollar
      rw [endsInDollar, dollar, single] at free
      exact absurd free (by decide)
    simp [noDollar]
  · rw [List.getLast?_append_of_ne_nil _ single]
    exact free

theorem escapeLiteral_ne_nil (nonempty : literal ≠ []) : escapeLiteral opens ends literal ≠ [] := by
  cases literal with
  | nil => exact absurd rfl nonempty
  | cons character rest =>
      rw [escapeLiteral]
      split <;> exact List.cons_ne_nil _ _

/-- A dollar sign at the end of the last literal stands behind a backslash. -/
theorem endsInDollar_escapeLiteral (opens : Bool) (literal : Text) :
    endsInDollar (escapeLiteral opens true literal) = false := by
  induction literal generalizing opens with
  | nil => rfl
  | cons character rest inductionHypothesis =>
      by_cases last : rest = []
      · obtain rfl := last
        by_cases escaped : isEscaped opens true character []
        · rw [escapeLiteral_of_isEscaped escaped, escapeLiteral]
          simp [endsInDollar]
        · have noDollar : character ≠ '$' := by
            intro same
            subst same
            exact escaped (by simp [isEscaped, needsBoundaryEscape])
          rw [escapeLiteral_of_not_isEscaped escaped, escapeLiteral]
          simp [endsInDollar, noDollar]
      · have later : escapeLiteral false true rest ≠ [] := escapeLiteral_ne_nil last
        by_cases escaped : isEscaped opens true character rest
        · rw [escapeLiteral_of_isEscaped escaped]
          exact endsInDollar_append ['\\', character] later (inductionHypothesis false)
        · rw [escapeLiteral_of_not_isEscaped escaped]
          exact endsInDollar_append [character] later (inductionHypothesis false)

section Anchors

variable {spans : List (Span LooseValue)}

theorem patternOfSpans_ne_nil (filled : ∀ literal, .plain literal ∈ spans → literal ≠ [])
    (nonempty : spans ≠ []) : patternOfSpans opens spans ≠ [] := by
  cases spans with
  | nil => exact absurd rfl nonempty
  | cons span later =>
      cases span with
      | construct found => exact List.cons_ne_nil _ _
      | plain literal =>
          have written : escapeLiteral opens later.isEmpty literal ≠ [] :=
            escapeLiteral_ne_nil (filled literal List.mem_cons_self)
          simp [patternOfSpans, written]

theorem endsInDollar_patternOfSpans (filled : ∀ literal, .plain literal ∈ spans → literal ≠ [])
    (opens : Bool) : endsInDollar (patternOfSpans opens spans) = false := by
  induction spans generalizing opens with
  | nil => rfl
  | cons span later inductionHypothesis =>
      have laterFilled : ∀ literal, .plain literal ∈ later → literal ≠ [] := fun literal member =>
        filled literal (List.mem_cons_of_mem _ member)
      by_cases last : later = []
      · obtain rfl := last
        cases span with
        | plain literal =>
            rw [patternOfSpans, patternOfSpans, List.append_nil]
            exact endsInDollar_escapeLiteral opens literal
        | construct found =>
            rw [patternOfSpans]
            cases found.type <;> decide
      · have nonempty : patternOfSpans false later ≠ [] := patternOfSpans_ne_nil laterFilled last
        cases span with
        | plain literal =>
            exact endsInDollar_append _ nonempty (inductionHypothesis laterFilled false)
        | construct found =>
            rw [patternOfSpans_construct]
            exact endsInDollar_append _ nonempty (inductionHypothesis laterFilled false)

theorem head?_patternOfSpans (filled : ∀ literal, .plain literal ∈ spans → literal ≠ []) :
    (patternOfSpans true spans).head? ≠ some '^' := by
  cases spans with
  | nil => simp [patternOfSpans]
  | cons span later =>
      cases span with
      | construct found => simp [patternOfSpans]
      | plain literal =>
          cases literal with
          | nil => exact absurd rfl (filled [] List.mem_cons_self)
          | cons character rest =>
              rw [patternOfSpans]
              by_cases escaped : isEscaped true later.isEmpty character rest
              · simp [escapeLiteral_of_isEscaped escaped]
              · have noCaret : character ≠ '^' := by
                  intro same
                  subst same
                  exact escaped (by simp [isEscaped, needsBoundaryEscape])
                simp [escapeLiteral_of_not_isEscaped escaped, noCaret]

/-- The pattern made up from a text has no anchors. -/
theorem ofPattern_patternOfSpans (filled : ∀ literal, .plain literal ∈ spans → literal ≠ []) :
    Anchored.ofPattern (patternOfSpans true spans) = ⟨[], patternOfSpans true spans, []⟩ := by
  rw [ofPattern_of_head?_ne (head?_patternOfSpans filled), Anchored.ofRest,
    endsInDollar_patternOfSpans filled true]
  rfl

end Anchors

/-! ## Angle brackets -/

def Span.plainText {α : Type} : Span α → Text
  | .plain text => text
  | .construct _ => []

def firstBracket (text : Text) : Option Char :=
  text.find? fun character => !isOutlineCharacter character

theorem firstBracket_cons (character : Char) (rest : Text) :
    firstBracket (character :: rest) =
      if isOutlineCharacter character then firstBracket rest else some character := by
  rw [firstBracket, List.find?_cons]
  cases isOutlineCharacter character <;> rfl

theorem firstBracket_escapeLiteral (opens ends : Bool) (literal back : Text) :
    firstBracket (escapeLiteral opens ends literal ++ back) = firstBracket (literal ++ back) := by
  induction literal generalizing opens with
  | nil => rfl
  | cons character rest inductionHypothesis =>
      have backslash : isOutlineCharacter '\\' := by decide
      by_cases escaped : isEscaped opens ends character rest
      · rw [escapeLiteral_of_isEscaped escaped, List.cons_append, firstBracket_cons,
          if_pos backslash, List.cons_append, firstBracket_cons, inductionHypothesis,
          List.cons_append, firstBracket_cons]
      · rw [escapeLiteral_of_not_isEscaped escaped, List.cons_append, firstBracket_cons,
          inductionHypothesis, List.cons_append, firstBracket_cons]

theorem firstBracket_eq_none_iff {text : Text} :
    firstBracket text = none ↔ text.all isOutlineCharacter := by
  simp [firstBracket]

theorem firstBracket_append_of_all {front : Text} (free : front.all isOutlineCharacter)
    (back : Text) : firstBracket (front ++ back) = firstBracket back := by
  have nothing := firstBracket_eq_none_iff.2 free
  rw [firstBracket] at nothing
  rw [firstBracket, List.find?_append, nothing]
  rfl

theorem firstBracket_append_congr (front : Text) {back other : Text}
    (same : firstBracket back = firstBracket other) :
    firstBracket (front ++ back) = firstBracket (front ++ other) := by
  rw [firstBracket] at same
  rw [firstBracket, firstBracket, List.find?_append, List.find?_append, same, firstBracket]

/-- The angle brackets of the pattern are those of the plain stretches. -/
theorem firstBracket_patternOfSpans (opens : Bool) (spans : List (Span LooseValue)) :
    firstBracket (patternOfSpans opens spans) = firstBracket (spans.flatMap Span.plainText) := by
  induction spans generalizing opens with
  | nil => rfl
  | cons span later inductionHypothesis =>
      rw [List.flatMap_cons]
      cases span with
      | plain literal =>
          rw [patternOfSpans, firstBracket_escapeLiteral]
          exact firstBracket_append_congr literal (inductionHypothesis false)
      | construct found =>
          have free : ('{' :: found.type.name ++ ['}']).all isOutlineCharacter := by
            cases found.type <;> decide
          rw [patternOfSpans_construct, firstBracket_append_of_all free, inductionHypothesis false]
          rfl

theorem all_isOutlineCharacter_escapeLiteral (opens ends : Bool) {literal : Text}
    (free : literal.all isOutlineCharacter) :
    (escapeLiteral opens ends literal).all isOutlineCharacter := by
  rw [← firstBracket_eq_none_iff] at free ⊢
  rw [← List.append_nil (escapeLiteral _ _ _), firstBracket_escapeLiteral, List.append_nil, free]

/-- Whether a text begins like the name of an outline reference. -/
def startsName (text : Text) : Bool :=
  text.head?.any fun character => isOutlineCharacter character && !isBlank character

/-- A name in front of its closing bracket begins as the text does. -/
theorem head?_of_startsName {front back : Text} (starts : startsName (front ++ '>' :: back)) :
    front.head?.any fun first => !isBlank first := by
  cases front with
  | nil =>
      have notOutline : isOutlineCharacter '>' = false := by decide
      simp [startsName, notOutline] at starts
  | cons first others =>
      simp only [startsName, List.cons_append, List.head?_cons, Option.any_some,
        Bool.and_eq_true] at starts
      simpa using starts.2

theorem outlineName?_isSome_iff {text : Text} :
    (outlineName? ('<' :: text)).isSome ↔ startsName text ∧ firstBracket text = some '>' := by
  have closing : ∀ rest, firstBracket ('>' :: rest) = some '>' := fun rest => rfl
  constructor
  · intro found
    obtain ⟨name, named⟩ := Option.isSome_iff_exists.1 found
    obtain ⟨rest, split, bracketFree, notBlank⟩ := outlineName?_eq_some_iff.1 named
    obtain rfl : text = name ++ '>' :: rest := by simpa [outlineReference] using split
    refine ⟨?_, ?_⟩
    · cases name with
      | nil => simp at notBlank
      | cons first others =>
          rw [List.all_cons, Bool.and_eq_true] at bracketFree
          simpa [startsName, bracketFree.1] using notBlank
    · rw [firstBracket_append_of_all bracketFree, closing]
  · intro both
    obtain ⟨starts, closes⟩ := both
    obtain ⟨-, front, back, rfl, free⟩ := List.find?_eq_some_iff_append.1 closes
    have named : outlineName? ('<' :: (front ++ '>' :: back)) = some front := by
      apply outlineName?_eq_some_iff.2
      exact ⟨back, by simp [outlineReference], by simpa using free, head?_of_startsName starts⟩
    rw [named]
    rfl

theorem startsName_escapeLiteral (opens ends : Bool) (character : Char) (rest back : Text) :
    startsName (escapeLiteral opens ends (character :: rest) ++ back) =
      startsName (character :: rest) := by
  by_cases escaped : isEscaped opens ends character rest
  · have both := outline_of_isEscapable (isEscapable_of_isEscaped escaped)
    have backslash : isOutlineCharacter '\\' ∧ isBlank '\\' = false := by decide
    rw [escapeLiteral_of_isEscaped escaped]
    simp [startsName, both, backslash]
  · rw [escapeLiteral_of_not_isEscaped escaped]
    rfl

/-- The first angle bracket of a literal, if it is a closing one, splits what is written too. -/
theorem exists_split_escapeLiteral {literal : Text} (closes : firstBracket literal = some '>')
    (opens ends : Bool) :
    ∃ front passed rest, literal = passed ++ '>' :: rest ∧
      escapeLiteral opens ends literal = front ++ '>' :: escapeLiteral false ends rest ∧
      front.all isOutlineCharacter := by
  induction literal generalizing opens with
  | nil => simp [firstBracket] at closes
  | cons character later inductionHypothesis =>
      rw [firstBracket_cons] at closes
      by_cases outline : isOutlineCharacter character
      · rw [if_pos outline] at closes
        obtain ⟨front, passed, rest, rfl, written, free⟩ := inductionHypothesis closes false
        by_cases escaped : isEscaped opens ends character (passed ++ '>' :: rest)
        · refine ⟨'\\' :: character :: front, character :: passed, rest, rfl, ?_, ?_⟩
          · rw [escapeLiteral_of_isEscaped escaped, written]
            rfl
          · simpa [outline] using ⟨by decide, by simpa using free⟩
        · refine ⟨character :: front, character :: passed, rest, rfl, ?_, ?_⟩
          · rw [escapeLiteral_of_not_isEscaped escaped, written]
            rfl
          · simpa [outline] using free
      · rw [if_neg outline, Option.some.injEq] at closes
        obtain rfl := closes
        have kept : ¬isEscaped opens ends '>' later := by
          simp [isEscaped, needsBoundaryEscape, isPatternBracket]
        exact ⟨[], [], later, rfl, escapeLiteral_of_not_isEscaped kept, rfl⟩

/-- The first angle bracket of the plain stretches, if it is a closing one, splits the pattern. -/
theorem exists_split_patternOfSpans {spans : List (Span LooseValue)}
    (closes : firstBracket (spans.flatMap Span.plainText) = some '>') (opens : Bool) :
    ∃ front passed rest later, .plain (passed ++ '>' :: rest) :: later <:+ spans ∧
      patternOfSpans opens spans = front ++ '>' :: patternOfSpans false (.plain rest :: later) ∧
      front.all isOutlineCharacter := by
  induction spans generalizing opens with
  | nil => simp [firstBracket] at closes
  | cons span others inductionHypothesis =>
      cases span with
      | construct found =>
          obtain ⟨front, passed, rest, later, isSuffix, written, free⟩ :=
            inductionHypothesis closes false
          have braces : ('{' :: found.type.name ++ ['}']).all isOutlineCharacter := by
            cases found.type <;> decide
          refine ⟨('{' :: found.type.name ++ ['}']) ++ front, passed, rest, later,
            isSuffix.trans (List.suffix_cons _ _), ?_, ?_⟩
          · rw [patternOfSpans_construct, written, List.append_assoc _ front]
          · rw [List.all_append, braces, free]
            rfl
      | plain literal =>
          by_cases inside : firstBracket literal = some '>'
          · obtain ⟨front, passed, rest, rfl, written, free⟩ :=
              exists_split_escapeLiteral inside opens others.isEmpty
            refine ⟨front, passed, rest, others, List.suffix_rfl, ?_, free⟩
            rw [patternOfSpans, written, patternOfSpans]
            simp
          · have noBracket : firstBracket literal = none := by
              rw [List.flatMap_cons, Span.plainText, firstBracket, List.find?_append,
                Option.or_eq_some_iff] at closes
              exact (closes.resolve_left inside).1
            have writtenFree := all_isOutlineCharacter_escapeLiteral opens others.isEmpty
              (firstBracket_eq_none_iff.1 noBracket)
            rw [List.flatMap_cons, Span.plainText, firstBracket_append_of_all
              (firstBracket_eq_none_iff.1 noBracket)] at closes
            obtain ⟨front, passed, rest, later, isSuffix, written, free⟩ :=
              inductionHypothesis closes false
            refine ⟨escapeLiteral opens others.isEmpty literal ++ front, passed, rest, later,
              isSuffix.trans (List.suffix_cons _ _), ?_, ?_⟩
            · rw [patternOfSpans, written, List.append_assoc]
            · rw [List.all_append, writtenFree, free]
              rfl

end StepGrammar
