import StepGrammar.Proofs.Fallback.Written
import StepGrammar.Proofs.Pattern.ArgumentViews

/-!
Contract: which arguments the pattern made up from a step text declares.

The pattern declares one parameter for each value unless a plain stretch takes its braces away. A
backslash right before a value turns the opening brace into an escape. An opening angle bracket
before values and a closing one behind them make a reference of all that stands between. These are
the only cases: `fallback_arguments_agree_iff`.
-/

namespace StepGrammar

/-- Whether a text is the beginning of the name of a reference or all of it. -/
def isOpenName (text : Text) : Bool :=
  text.all isOutlineCharacter && !text.head?.any isBlank

/-- Whether an opening angle bracket begins a name that goes on to the end of the text. -/
def opensReference : Text → Bool
  | [] => false
  | character :: rest => (character == '<' && isOpenName rest) || opensReference rest

/-- Whether the first angle bracket among the plain stretches is a closing one. -/
def closesReference (spans : List (Span LooseValue)) : Bool :=
  firstBracket (spans.flatMap Span.plainText) == some '>'

/-- Whether no plain stretch takes the braces of a value behind it away. -/
def keepsValues : List (Span LooseValue) → Bool
  | [] => true
  | .construct _ :: rest => keepsValues rest
  | .plain literal :: rest =>
    (rest.isEmpty || (literal.getLast? != some '\\' &&
      !(opensReference literal && closesReference rest))) && keepsValues rest

def valueDeclarations (spans : List (Span LooseValue)) : List Declaration :=
  (looseValues spans).map fun found => { name := none, type := .parameter found.type }

/-- What the scan of a step text for values ensures. -/
structure IsScanned (spans : List (Span LooseValue)) : Prop where
  alternates : spans.IsChain fun first second => first.isConstruct ∨ second.isConstruct
  referenceFree : ∀ literal, .plain literal ∈ spans → ∀ suffix, suffix <:+ literal →
    outlineName? suffix = none

theorem isScanned_scan (text : Text) : IsScanned (scan looseValue? text) where
  alternates := isChain_scanFrom looseValue? none 0 text
  referenceFree := by
    intro literal member suffix isSuffix
    by_cases empty : suffix = []
    · rw [empty]
      rfl
    · obtain ⟨before, rest, nothing⟩ := exists_recognise_eq_none member isSuffix empty
      have noReference : outlineName? (suffix ++ rest) = none := by
        simp only [looseValue?, outlineValue?, Option.orElse_eq_orElse, Option.orElse_eq_or,
          Option.or_eq_none_iff, Option.map_eq_none_iff] at nothing
        exact nothing.2.1
      rw [Option.eq_none_iff_forall_ne_some] at noReference ⊢
      intro name named
      obtain ⟨after, rfl, bracketFree, starts⟩ := outlineName?_eq_some_iff.1 named
      exact noReference name (outlineName?_eq_some_iff.2
        ⟨after ++ rest, List.append_assoc _ _ _, bracketFree, starts⟩)

section Scanned

variable {span : Span LooseValue} {rest : List (Span LooseValue)} {character : Char}
  {literal : Text}

theorem IsScanned.of_suffix {spans : List (Span LooseValue)} (scanned : IsScanned spans)
    (isSuffix : rest <:+ spans) : IsScanned rest where
  alternates := scanned.alternates.suffix isSuffix
  referenceFree literal member := scanned.referenceFree literal (isSuffix.subset member)

theorem IsScanned.tail (scanned : IsScanned (span :: rest)) : IsScanned rest :=
  scanned.of_suffix (List.suffix_cons _ _)

/-- A plain stretch may be shortened from the left. -/
theorem IsScanned.of_plain_suffix {longer : Text} (scanned : IsScanned (.plain longer :: rest))
    (isSuffix : literal <:+ longer) : IsScanned (.plain literal :: rest) where
  alternates := by
    cases rest with
    | nil => exact List.isChain_singleton _
    | cons next others =>
        have chain := List.isChain_cons_cons.1 scanned.alternates
        exact List.isChain_cons_cons.2 ⟨chain.1, chain.2⟩
  referenceFree other member suffix inner := by
    rcases List.mem_cons.1 member with same | later
    · obtain rfl := Span.plain.inj same
      exact scanned.referenceFree longer List.mem_cons_self suffix (inner.trans isSuffix)
    · exact scanned.referenceFree other (List.mem_cons_of_mem _ later) suffix inner

theorem IsScanned.exists_construct (scanned : IsScanned (.plain literal :: rest))
    (nonempty : rest ≠ []) : ∃ found later, rest = .construct found :: later := by
  cases rest with
  | nil => exact absurd rfl nonempty
  | cons next later =>
      have constructs := (List.isChain_cons_cons.1 scanned.alternates).1
      cases next with
      | plain other => simp [Span.isConstruct] at constructs
      | construct found => exact ⟨found, later, rfl⟩

/-! ## Characters that declare nothing -/

variable {opens : Bool}

theorem all_isBlank_of_escapeLiteral {ends : Bool}
    (blank : (escapeLiteral opens ends literal).all isBlank) : literal.all isBlank := by
  induction literal generalizing opens with
  | nil => rfl
  | cons character rest inductionHypothesis =>
      by_cases escaped : isEscaped opens ends character rest
      · rw [escapeLiteral_of_isEscaped escaped, List.all_cons, List.all_cons, Bool.and_eq_true,
          Bool.and_eq_true] at blank
        rw [List.all_cons, blank.2.1, inductionHypothesis blank.2.2]
        rfl
      · rw [escapeLiteral_of_not_isEscaped escaped, List.all_cons, Bool.and_eq_true] at blank
        rw [List.all_cons, blank.1, inductionHypothesis blank.2]
        rfl

/-- A colon that was left without escape has more than blanks behind it. -/
theorem not_isClosingColon (scanned : IsScanned (.plain (character :: literal) :: rest))
    (kept : ¬isEscaped opens rest.isEmpty character literal) :
    ¬isClosingColon (character :: patternOfSpans false (.plain literal :: rest)) := by
  intro closing
  rw [isClosingColon, Bool.and_eq_true, beq_iff_eq, patternOfSpans, List.all_append,
    Bool.and_eq_true] at closing
  obtain ⟨rfl, literalBlank, restBlank⟩ := closing
  by_cases last : rest = []
  · obtain rfl := last
    have blank := all_isBlank_of_escapeLiteral literalBlank
    exact kept (by simp [isEscaped, needsBoundaryEscape, blank])
  · obtain ⟨found, later, rfl⟩ := scanned.exists_construct last
    have notBlank : isBlank '{' = false := by decide
    simp [patternOfSpans_construct, notBlank] at restBlank

/-- Nothing is found at a character that was left without escape and opens neither an escape nor a
reference. -/
theorem part?_kept (scanned : IsScanned (.plain (character :: literal) :: rest))
    (kept : ¬isEscaped opens rest.isEmpty character literal)
    (noEscape : escape? (character :: patternOfSpans false (.plain literal :: rest)) = none)
    (noReference :
      outlineName? (character :: patternOfSpans false (.plain literal :: rest)) = none)
    (previous : Option Char) :
    part? previous (character :: patternOfSpans false (.plain literal :: rest)) = none := by
  have guarded := guarded_patternOfSpans opens (.plain (character :: literal) :: rest)
  rw [patternOfSpans_kept kept] at guarded
  have notBracket := not_isPatternBracket_of_not_isEscaped kept
  apply part?_eq_none noEscape _ _ _ guarded.slash_not_mem noReference
  · exact table?_eq_none (not_isClosingColon scanned kept) guarded.head?_trimStart
  · intro same
    subst same
    exact notBracket (by decide)
  · intro same
    subst same
    exact notBracket (by decide)

theorem declarationsFrom_kept (previous : Option Char)
    (scanned : IsScanned (.plain (character :: literal) :: rest))
    (kept : ¬isEscaped opens rest.isEmpty character literal)
    (noEscape : escape? (character :: patternOfSpans false (.plain literal :: rest)) = none)
    (noReference :
      outlineName? (character :: patternOfSpans false (.plain literal :: rest)) = none) :
    declarationsFrom previous (patternOfSpans opens (.plain (character :: literal) :: rest)) =
      declarationsFrom (some character) (patternOfSpans false (.plain literal :: rest)) := by
  rw [patternOfSpans_kept kept]
  exact declarationsFrom_of_none (part?_kept scanned kept noEscape noReference previous)

/-- No reference begins at a bracket whose name ends before the values or that is not closed behind
them. -/
theorem outlineName?_eq_none_of_not_closed (scanned : IsScanned (.plain ('<' :: literal) :: rest))
    (notClosed : ¬(isOpenName literal ∧ closesReference rest)) :
    outlineName? ('<' :: patternOfSpans false (.plain literal :: rest)) = none := by
  rw [← Option.not_isSome_iff_eq_none, outlineName?_isSome_iff]
  intro reference
  rcases reference with ⟨starts, closes⟩
  have literalStarts : literal ≠ [] → startsName literal := by
    intro nonempty
    cases literal with
    | nil => exact absurd rfl nonempty
    | cons first others =>
        rw [patternOfSpans, startsName_escapeLiteral] at starts
        exact starts
  rw [firstBracket_patternOfSpans, List.flatMap_cons, Span.plainText, firstBracket,
    List.find?_append, Option.or_eq_some_iff] at closes
  rcases closes with inside | ⟨bracketFree, behind⟩
  · -- The reference would end in the literal, where the scan of the step text had found it.
    have nonempty : literal ≠ [] := by
      intro same
      subst same
      simp at inside
    have reference := outlineName?_isSome_iff.2 ⟨literalStarts nonempty, inside⟩
    rw [scanned.referenceFree _ List.mem_cons_self _ List.suffix_rfl] at reference
    exact absurd reference (by simp)
  · refine notClosed ⟨?_, beq_iff_eq.2 behind⟩
    rw [isOpenName, firstBracket_eq_none_iff.1 bracketFree]
    cases literal with
    | nil => rfl
    | cons first others =>
        have firstStarts := literalStarts (List.cons_ne_nil _ _)
        simp only [startsName, List.head?_cons, Option.any_some, Bool.and_eq_true] at firstStarts
        simpa using firstStarts.2

/-- Whether a character of a literal takes the braces of the next value away: a backslash right
before it, or an opening bracket whose reference is closed behind it. -/
def TakesBraces (character : Char) (literal : Text) (rest : List (Span LooseValue)) : Prop :=
  (character = '\\' ∧ literal = [] ∧ rest ≠ []) ∨
    (character = '<' ∧ isOpenName literal ∧ closesReference rest)

theorem outlineName?_eq_none_of_not_takesBraces
    (scanned : IsScanned (.plain (character :: literal) :: rest))
    (keeps : ¬TakesBraces character literal rest) :
    outlineName? (character :: patternOfSpans false (.plain literal :: rest)) = none := by
  by_cases bracket : character = '<'
  · obtain rfl := bracket
    apply outlineName?_eq_none_of_not_closed scanned
    exact fun both => keeps (Or.inr ⟨rfl, both⟩)
  · exact outlineName?_eq_none bracket

/-- A literal character declares nothing and leaves the rest as it is, unless it takes braces away.
-/
theorem declarationsFrom_literal (scanned : IsScanned (.plain (character :: literal) :: rest))
    (keeps : ¬TakesBraces character literal rest) (previous : Option Char) (opens : Bool) :
    ∃ before,
      declarationsFrom previous (patternOfSpans opens (.plain (character :: literal) :: rest)) =
        declarationsFrom before (patternOfSpans false (.plain literal :: rest)) := by
  have outlineFree := outlineName?_eq_none_of_not_takesBraces scanned keeps
  by_cases escaped : isEscaped opens rest.isEmpty character literal
  · refine ⟨some character, ?_⟩
    rw [patternOfSpans_escaped escaped]
    exact declarationsFrom_escape (isEscapable_of_isEscaped escaped)
  · by_cases backslash : character = '\\'
    · obtain rfl := backslash
      cases literal with
      | nil =>
          obtain rfl : rest = [] := by_contra fun nonempty => keeps (Or.inl ⟨rfl, rfl, nonempty⟩)
          exact ⟨_, declarationsFrom_kept previous scanned escaped rfl outlineFree⟩
      | cons second others =>
          by_cases secondEscaped : isEscaped false rest.isEmpty second others
          · refine ⟨_, declarationsFrom_kept previous scanned escaped ?_ outlineFree⟩
            rw [patternOfSpans, escapeLiteral_of_isEscaped secondEscaped]
            exact escape?_eq_none (Or.inr (by simp [isEscapable, escapables]))
          · by_cases escapable : isEscapable second
            · -- The backslash and the second character are one escape, and the second character
              -- alone would declare nothing either.
              have alone := declarationsFrom_kept (some '\\')
                (scanned.of_plain_suffix (List.suffix_cons _ _)) secondEscaped
                (escape?_eq_none (Or.inl fun same => absurd (same ▸ escapable) (by decide)))
                (outlineName?_eq_none fun same => absurd (same ▸ escapable) (by decide))
              refine ⟨some '\\', ?_⟩
              rw [alone, patternOfSpans, escapeLiteral_of_not_isEscaped escaped,
                escapeLiteral_of_not_isEscaped secondEscaped]
              exact declarationsFrom_escape escapable
            · refine ⟨_, declarationsFrom_kept previous scanned escaped ?_ outlineFree⟩
              rw [patternOfSpans, escapeLiteral_of_not_isEscaped secondEscaped]
              exact escape?_eq_none (Or.inr (by simpa using escapable))
    · exact ⟨_, declarationsFrom_kept previous scanned escaped (escape?_eq_none (Or.inl backslash))
        outlineFree⟩

/-! ## What takes braces away -/

theorem declarationsFrom_ordinary {front back : Text}
    (ordinary : ∀ character ∈ front, character ∉ ['\\', '{', '<', ':', '(', '/'])
    (guarded : Guarded back) (previous : Option Char) :
    ∃ before, declarationsFrom previous (front ++ back) = declarationsFrom before back := by
  induction front generalizing previous with
  | nil => exact ⟨previous, rfl⟩
  | cons character front inductionHypothesis =>
      have first := (List.forall_mem_cons.1 ordinary).1
      have others := (List.forall_mem_cons.1 ordinary).2
      simp only [List.mem_cons, List.not_mem_nil, or_false, not_or] at first
      obtain ⟨notBackslash, notBrace, notBracket, notColon, notGroup, notSlash⟩ := first
      have allGuarded : Guarded (character :: (front ++ back)) := by
        refine .kept ⟨notGroup, notSlash⟩ (Guarded.append (fun other member => ?_) guarded)
        have allowed := others other member
        simp only [List.mem_cons, List.not_mem_nil, or_false, not_or] at allowed
        exact allowed.2.2.2.2
      have nothing : part? previous (character :: (front ++ back)) = none := by
        apply part?_eq_none (escape?_eq_none (Or.inl notBackslash)) _ notBrace notGroup
          allGuarded.slash_not_mem (outlineName?_eq_none notBracket)
        exact table?_eq_none (by simp [isClosingColon, notColon]) allGuarded.head?_trimStart
      obtain ⟨before, same⟩ := inductionHypothesis others (some character)
      exact ⟨before, by rw [List.cons_append, declarationsFrom_of_none nothing, same]⟩

/-- A backslash right before a value takes its declaration away. -/
theorem declarationsFrom_backslash (previous : Option Char) (opens : Bool) (found : LooseValue)
    (later : List (Span LooseValue)) :
    ∃ before,
      declarationsFrom previous
          (patternOfSpans opens (.plain ['\\'] :: .construct found :: later)) =
        declarationsFrom before (patternOfSpans false later) := by
  have ordinary : (found.type.name ++ ['}']).all fun character =>
      !(['\\', '{', '<', ':', '(', '/'].contains character) := by
    cases found.type <;> decide
  obtain ⟨before, same⟩ := declarationsFrom_ordinary
    (fun character member => by simpa using List.all_eq_true.1 ordinary character member)
    (guarded_patternOfSpans false later) (some '{')
  have kept : ¬isEscaped opens false '\\' [] := by
    simp [isEscaped, needsBoundaryEscape, isPatternBracket]
  refine ⟨before, ?_⟩
  rw [← same, patternOfSpans, List.isEmpty_cons, escapeLiteral_of_not_isEscaped kept,
    patternOfSpans_construct]
  exact declarationsFrom_escape (by decide)

/-- An open reference that is closed behind values takes all declarations up to there away. -/
theorem declarationsFrom_reference (openName : isOpenName literal) (closes : closesReference rest)
    (scanned : IsScanned (.plain ('<' :: literal) :: rest)) (previous : Option Char)
    (opens : Bool) :
    ∃ before passed inner later, .plain (passed ++ '>' :: inner) :: later <:+ rest ∧
      declarationsFrom previous (patternOfSpans opens (.plain ('<' :: literal) :: rest)) =
        declarationsFrom before (patternOfSpans false (.plain inner :: later)) := by
  obtain ⟨front, passed, inner, later, isSuffix, written, free⟩ :=
    exists_split_patternOfSpans (eq_of_beq closes) false
  refine ⟨some '>', passed, inner, later, isSuffix, ?_⟩
  have kept : ¬isEscaped opens rest.isEmpty '<' literal := by
    simp [isEscaped, needsBoundaryEscape, isPatternBracket]
  obtain ⟨literalFree, literalStarts⟩ := Bool.and_eq_true_iff.1 openName
  have starts : startsName (patternOfSpans false (.plain literal :: rest)) := by
    cases literal with
    | cons first others =>
        rw [patternOfSpans, startsName_escapeLiteral]
        simp_all [startsName]
    | nil =>
        have nonempty : rest ≠ [] := by
          intro same
          subst same
          exact absurd closes (by decide)
        obtain ⟨found, others, rfl⟩ := scanned.exists_construct nonempty
        rw [patternOfSpans, patternOfSpans_construct]
        rfl
  have split : patternOfSpans false (.plain literal :: rest) =
      (escapeLiteral false rest.isEmpty literal ++ front) ++
        '>' :: patternOfSpans false (.plain inner :: later) := by
    rw [List.append_assoc, ← written, patternOfSpans]
  have nameFree : (escapeLiteral false rest.isEmpty literal ++ front).all isOutlineCharacter := by
    rw [List.all_append, free,
      all_isOutlineCharacter_escapeLiteral false rest.isEmpty literalFree]
    rfl
  rw [split] at starts
  have declared : declarationsFrom previous ('<' :: ((escapeLiteral false rest.isEmpty literal ++
      front) ++ '>' :: patternOfSpans false (.plain inner :: later))) =
        declarationsFrom (some '>') (patternOfSpans false (.plain inner :: later)) :=
    declarationsFrom_outline nameFree (head?_of_startsName starts)
  rw [← declared, ← split, patternOfSpans, escapeLiteral_of_not_isEscaped kept]
  rfl

/-! ## All declarations of the pattern -/

theorem valueDeclarations_construct (found : LooseValue) (later : List (Span LooseValue)) :
    valueDeclarations (.construct found :: later) =
      { name := none, type := .parameter found.type } :: valueDeclarations later :=
  rfl

theorem valueDeclarations_suffix {later spans : List (Span LooseValue)}
    (isSuffix : later <:+ spans) :
    (valueDeclarations later).Sublist (valueDeclarations spans) :=
  (isSuffix.sublist.filterMap _).map _

/-- Declarations among those behind a value are not all of the declarations. -/
theorem ne_of_sublist {declared : List Declaration} {found : LooseValue}
    {later : List (Span LooseValue)} (sublist : declared.Sublist (valueDeclarations later)) :
    declared ≠ valueDeclarations (.construct found :: later) := by
  intro same
  subst same
  have shorter := sublist.length_le
  rw [valueDeclarations_construct, List.length_cons] at shorter
  omega

/-- A character that takes no braces away does not matter for what is kept. -/
theorem keepsValues_literal (keeps : ¬TakesBraces character literal rest) :
    keepsValues (.plain (character :: literal) :: rest) = keepsValues (.plain literal :: rest) := by
  by_cases last : rest = []
  · obtain rfl := last
    rfl
  · have sameEnd : ((character :: literal).getLast? != some '\\') =
        (literal.getLast? != some '\\') := by
      cases literal with
      | nil =>
          have other : character ≠ '\\' := fun same => keeps (Or.inl ⟨same, rfl, last⟩)
          simpa [bne] using other
      | cons second others => rw [List.getLast?_cons_cons]
    have sameReference : (opensReference (character :: literal) && closesReference rest) =
        (opensReference literal && closesReference rest) := by
      rw [opensReference]
      by_cases bracket : character = '<'
      · cases openName : isOpenName literal with
        | false => rw [Bool.and_false, Bool.false_or]
        | true =>
            have notCloses : closesReference rest = false := by
              rw [Bool.eq_false_iff]
              exact fun closes => keeps (Or.inr ⟨bracket, openName, closes⟩)
            rw [notCloses, Bool.and_false, Bool.and_false]
      · rw [beq_eq_false_iff_ne.2 bracket, Bool.false_and, Bool.false_or]
    rw [keepsValues, keepsValues, sameEnd, sameReference]

def spansSize : List (Span LooseValue) → Nat
  | [] => 0
  | span :: rest => span.plainText.length + 1 + spansSize rest

theorem spansSize_lt_cons (span : Span LooseValue) (rest : List (Span LooseValue)) :
    spansSize rest < spansSize (span :: rest) := by
  rw [spansSize]
  omega

theorem spansSize_suffix {later spans : List (Span LooseValue)} (isSuffix : later <:+ spans) :
    spansSize later ≤ spansSize spans := by
  obtain ⟨front, rfl⟩ := isSuffix
  induction front with
  | nil => exact Nat.le_refl _
  | cons span front inductionHypothesis =>
      exact inductionHypothesis.trans (spansSize_lt_cons _ _).le

/-- Where braces are taken away, the declarations are those of spans behind the next value. -/
theorem exists_of_takesBraces (scanned : IsScanned (.plain (character :: literal) :: rest))
    (takes : TakesBraces character literal rest) (previous : Option Char) (opens : Bool) :
    ∃ found later spans before, rest = .construct found :: later ∧ IsScanned spans ∧
      spansSize spans ≤ spansSize later ∧
      (valueDeclarations spans).Sublist (valueDeclarations later) ∧
      declarationsFrom previous (patternOfSpans opens (.plain (character :: literal) :: rest)) =
        declarationsFrom before (patternOfSpans false spans) := by
  rcases takes with ⟨rfl, rfl, nonempty⟩ | ⟨rfl, openName, closes⟩
  · obtain ⟨found, later, rfl⟩ := scanned.exists_construct nonempty
    obtain ⟨before, declared⟩ := declarationsFrom_backslash previous opens found later
    exact ⟨found, later, later, before, rfl, scanned.tail.tail, Nat.le_refl _,
      List.Sublist.refl _, declared⟩
  · have nonempty : rest ≠ [] := by
      intro same
      subst same
      exact absurd closes (by decide)
    obtain ⟨before, passed, inner, behind, isSuffix, declared⟩ :=
      declarationsFrom_reference openName closes scanned previous opens
    have innerScanned : IsScanned (.plain inner :: behind) :=
      (scanned.tail.of_suffix isSuffix).of_plain_suffix ⟨passed ++ ['>'], by simp⟩
    obtain ⟨found, later, rfl⟩ := scanned.exists_construct nonempty
    have laterSuffix : .plain (passed ++ '>' :: inner) :: behind <:+ later :=
      (List.suffix_cons_iff.1 isSuffix).resolve_left (by simp)
    refine ⟨found, later, .plain inner :: behind, before, rfl, innerScanned, ?_, ?_, declared⟩
    · apply Nat.le_trans _ (spansSize_suffix laterSuffix)
      simp only [spansSize, Span.plainText, List.length_append, List.length_cons]
      omega
    · have fewer := valueDeclarations_suffix ((List.suffix_cons _ _).trans laterSuffix)
      exact fewer

theorem keepsValues_of_takesBraces (takes : TakesBraces character literal rest) :
    keepsValues (.plain (character :: literal) :: rest) = false := by
  rcases takes with ⟨rfl, rfl, nonempty⟩ | ⟨rfl, openName, closes⟩
  · simp [keepsValues, nonempty]
  · have nonempty : rest ≠ [] := by
      intro same
      subst same
      exact absurd closes (by decide)
    simp [keepsValues, nonempty, opensReference, openName, closes]

end Scanned

/-- What the pattern of scanned spans declares is a part of the declarations of the values, and all
of them exactly when the values are kept. -/
theorem declarationsFrom_patternOfSpans {spans : List (Span LooseValue)} (scanned : IsScanned spans)
    (opens : Bool) (previous : Option Char) :
    (declarationsFrom previous (patternOfSpans opens spans)).Sublist (valueDeclarations spans) ∧
      (declarationsFrom previous (patternOfSpans opens spans) = valueDeclarations spans ↔
        keepsValues spans) := by
  -- A reference that is closed later ends inside a plain stretch behind other spans, so the
  -- induction is on the size of the spans and not on their list.
  induction spans using (measure spansSize).wf.induction generalizing opens previous with
  | _ spans inductionHypothesis =>
    match spans with
    | [] => exact ⟨List.Sublist.refl _, iff_of_true rfl rfl⟩
    | .construct found :: rest =>
        obtain ⟨sublist, same⟩ := inductionHypothesis rest (spansSize_lt_cons _ _)
          scanned.tail false (some '}')
        have declared :
            declarationsFrom previous (patternOfSpans opens (.construct found :: rest)) =
            { name := none, type := .parameter found.type } ::
              declarationsFrom (some '}') (patternOfSpans false rest) :=
          declarationsFrom_parameter found.type
        rw [declared, valueDeclarations_construct, List.cons_inj_right]
        exact ⟨sublist.cons_cons _, same⟩
    | .plain [] :: rest =>
        have same : keepsValues (.plain [] :: rest) = keepsValues rest := by
          rw [keepsValues]
          cases rest.isEmpty <;> rfl
        rw [same]
        exact inductionHypothesis rest (spansSize_lt_cons _ _) scanned.tail false previous
    | .plain (character :: literal) :: rest =>
        by_cases takes : TakesBraces character literal rest
        · obtain ⟨found, later, spans, before, rfl, spansScanned, smaller, fewer, declared⟩ :=
            exists_of_takesBraces scanned takes previous opens
          have decreases : spansSize spans <
              spansSize (.plain (character :: literal) :: .construct found :: later) :=
            smaller.trans_lt ((spansSize_lt_cons _ _).trans (spansSize_lt_cons _ _))
          have ofSpans := (inductionHypothesis spans decreases spansScanned false before).1
          have sublist := ofSpans.trans fewer
          rw [declared, keepsValues_of_takesBraces takes]
          exact ⟨sublist.cons _, iff_of_false (ne_of_sublist sublist) Bool.false_ne_true⟩
        · obtain ⟨before, declared⟩ := declarationsFrom_literal scanned takes previous opens
          have decreases : spansSize (.plain literal :: rest) <
              spansSize (.plain (character :: literal) :: rest) := by
            simp [spansSize, Span.plainText]
          rw [declared, keepsValues_literal takes]
          exact inductionHypothesis _ decreases (scanned.of_plain_suffix (List.suffix_cons _ _))
            false before

/-! ## The arguments of the pattern -/

theorem scannedTokens_patternOfSpans {spans : List (Span LooseValue)}
    (filled : ∀ literal, .plain literal ∈ spans → literal ≠ []) :
    Pattern.tokens (patternOfSpans true spans) =
      (scanFrom part? none 0 (patternOfSpans true spans)).flatMap fun span => span.part.tokens := by
  rw [Pattern.tokens, Pattern.parts, ofPattern_patternOfSpans filled]
  simp [anchorParts, bodyParts, scan, List.flatMap_map]

theorem tokens_patternOfSpans {spans : List (Span LooseValue)}
    (filled : ∀ literal, .plain literal ∈ spans → literal ≠ []) :
    (Pattern.tokens (patternOfSpans true spans)).filterMap (fun token => token.piece.declaration?) =
      declarationsFrom none (patternOfSpans true spans) := by
  rw [scannedTokens_patternOfSpans filled]
  rfl

theorem map_definition_args (text : Text) :
    (fallbackMatch text).args.map (fun arg => arg.definition) =
      defineFrom 0 (valueDeclarations (scan looseValue? text)) := by
  rw [← mapIdx_define_eq, valueDeclarations, fallbackMatch]
  apply List.ext_getElem?
  intro position
  rw [List.getElem?_map, List.getElem?_mapIdx, List.getElem?_mapIdx, List.getElem?_map,
    Nat.zero_add]
  cases (looseValues (scan looseValue? text))[position]? <;> rfl

theorem not_endsInTable_patternOfSpans {spans : List (Span LooseValue)} (scanned : IsScanned spans)
    (filled : ∀ literal, .plain literal ∈ spans → literal ≠ []) :
    endsInTable (Pattern.tokens (patternOfSpans true spans)) = false := by
  rw [Bool.eq_false_iff]
  intro ends
  obtain ⟨inner, token, closing, split, -, isTable, -⟩ := tokens_of_endsInTable ends
  obtain ⟨declaration, declares, isTableType⟩ : ∃ declaration,
      token.piece.declaration? = some declaration ∧ declaration.type = .table := by
    cases piece : token.piece with
    | table columns => exact ⟨_, rfl, rfl⟩
    | _ => simp [piece, Piece.isTable] at isTable
  have member : declaration ∈ declarationsFrom none (patternOfSpans true spans) := by
    rw [← tokens_patternOfSpans filled, split]
    exact List.mem_filterMap.2 ⟨token, by simp, declares⟩
  have ofValue := (declarationsFrom_patternOfSpans scanned true none).1.subset member
  obtain ⟨found, -, rfl⟩ := List.mem_map.1 ofValue
  cases isTableType

/-- The pattern made up from a text declares the arguments made up with it exactly when no plain
stretch of the text takes the braces of a value away. -/
theorem fallback_arguments_agree_iff (text : Text) :
    (fallbackMatch text).pattern.arguments =
        (fallbackMatch text).args.map (fun arg => arg.definition) ↔
      keepsValues (scan looseValue? text) := by
  have scanned := isScanned_scan text
  have filled : ∀ literal, .plain literal ∈ scan looseValue? text → literal ≠ [] := by
    intro literal member
    have all : ∀ span ∈ scan looseValue? text, span ≠ .plain [] :=
      forall_mem_scanFrom (by simp) (by simp) none 0 text
    exact fun empty => all _ member (by rw [empty])
  obtain ⟨sublist, same⟩ := declarationsFrom_patternOfSpans scanned true none
  have declared : (fallbackMatch text).pattern.arguments =
      defineFrom 0 (declarationsFrom none (patternOfSpans true (scan looseValue? text))) := by
    rw [← tokens_patternOfSpans filled, ← tokenArguments_eq_defineFrom]
    exact if_neg (Bool.eq_false_iff.1 (not_endsInTable_patternOfSpans scanned filled))
  rw [declared, map_definition_args, ← same]
  constructor
  · intro sameArguments
    have sameLength := congrArg List.length sameArguments
    rw [length_defineFrom, length_defineFrom] at sameLength
    exact sublist.eq_of_length sameLength
  · intro sameDeclarations
    rw [sameDeclarations]

/-- A backslash right before a value leaves the pattern without the argument that was made up. -/
theorem fallback_arguments_disagree :
    (fallbackMatch "open \\\"report\"".toList).pattern.arguments ≠
      (fallbackMatch "open \\\"report\"".toList).args.map (fun arg => arg.definition) := by
  decide +kernel

-- The brackets outside close around the reference that was made an argument.
example : keepsValues (scan looseValue? "a <b<c>d>".toList) = false := by decide +kernel

end StepGrammar
