import StepGrammar.Regex.Preference

/-!
Contract: the texts that an expression describes.

`Describes` forgets the order of preference and the records of the groups.
`exists_mem_parsesWith_iff` says that the ways to match consume exactly the described texts, and
`accepts_iff_describes` concludes that the matcher accepts exactly these. `groupBodies` lists what
the capture groups hold, in the order in which they are numbered.
-/

namespace StepGrammar.Regex

def Describes : Regex → Text → Prop
  | .empty, text => text = []
  | .one chars, text => ∃ character, text = [character] ∧ chars.accepts character
  | .star chars, text => ∀ character ∈ text, chars.accepts character
  | .plus chars, text => text ≠ [] ∧ ∀ character ∈ text, chars.accepts character
  | .option body, text => text = [] ∨ body.Describes text
  | .append first second, text =>
    ∃ front back, text = front ++ back ∧ first.Describes front ∧ second.Describes back
  | .either first second, text => first.Describes text ∨ second.Describes text
  | .capture body, text => body.Describes text

/-! ## The ways to match consume the described texts -/

theorem mem_repetitions_iff {chars : CharClass} {text rest : Text} :
    rest ∈ repetitions chars text ↔
      ∃ front, text = front ++ rest ∧ ∀ character ∈ front, chars.accepts character := by
  induction text with
  | nil =>
      simp only [repetitions, List.mem_singleton]
      constructor
      · intro same
        subst same
        exact ⟨[], by simp⟩
      · intro consumed
        rcases consumed with ⟨front, split, -⟩
        exact (List.append_eq_nil_iff.1 split.symm).2
  | cons character others inductionHypothesis =>
      have member_self_or : rest ∈ repetitions chars (character :: others) ↔
          rest = character :: others ∨
            chars.accepts character ∧ rest ∈ repetitions chars others := by
        simp only [repetitions]
        cases chars.accepts character <;> simp [or_comm]
      rw [member_self_or, inductionHypothesis]
      constructor
      · rintro (rfl | ⟨accepted, front, split, others⟩)
        · exact ⟨[], by simp⟩
        · exact ⟨character :: front, by simp [split], by simpa [accepted] using others⟩
      · intro consumed
        rcases consumed with ⟨front, split, accepted⟩
        cases front with
        | nil => exact Or.inl split.symm
        | cons first front =>
            rw [List.cons_append, List.cons_eq_cons] at split
            rcases split with ⟨rfl, split⟩
            refine Or.inr ⟨accepted _ (by simp), front, split, fun inner member => ?_⟩
            exact accepted inner (List.mem_cons_of_mem _ member)

theorem mem_single_iff {chars : CharClass} {text rest : Text} :
    rest ∈ single chars text ↔
      ∃ character, text = character :: rest ∧ chars.accepts character := by
  cases text with
  | nil => simp [single]
  | cons character others =>
      simp only [single, List.cons_eq_cons]
      constructor
      · intro member
        by_cases accepted : chars.accepts character
        · rw [if_pos accepted, List.mem_singleton] at member
          exact ⟨character, ⟨rfl, member.symm⟩, accepted⟩
        · simp [if_neg accepted] at member
      · intro consumed
        rcases consumed with ⟨_, ⟨rfl, rfl⟩, accepted⟩
        simp [accepted]

variable {γ : Type} {record : Text → Text → γ}

/-- An expression can consume a piece at the start of a text exactly when it describes it. -/
theorem exists_mem_parsesWith_iff {expression : Regex} {text rest : Text} :
    (∃ captured, (captured, rest) ∈ expression.parsesWith record text) ↔
      ∃ piece, text = piece ++ rest ∧ expression.Describes piece := by
  induction expression generalizing text rest with
  | empty =>
      simp only [parsesWith, Describes, List.mem_singleton, Prod.mk.injEq, exists_eq_left]
      simp [eq_comm]
  | one chars =>
      simp only [parsesWith, Describes, List.mem_map, Prod.mk.injEq]
      constructor
      · intro parsed
        rcases parsed with ⟨_, other, member, -, rfl⟩
        rcases mem_single_iff.1 member with ⟨character, split, accepted⟩
        exact ⟨[character], split, character, rfl, accepted⟩
      · intro described
        rcases described with ⟨_, split, character, rfl, accepted⟩
        exact ⟨[], rest, mem_single_iff.2 ⟨character, split, accepted⟩, rfl, rfl⟩
  | star chars =>
      simp only [parsesWith, Describes, List.mem_map, Prod.mk.injEq]
      constructor
      · intro parsed
        rcases parsed with ⟨_, other, member, -, rfl⟩
        exact mem_repetitions_iff.1 member
      · intro described
        exact ⟨[], rest, mem_repetitions_iff.2 described, rfl, rfl⟩
  | plus chars =>
      simp only [parsesWith, Describes, List.mem_map, List.mem_flatMap, Prod.mk.injEq]
      constructor
      · intro parsed
        rcases parsed with ⟨_, other, ⟨later, first, more⟩, -, rfl⟩
        rcases mem_single_iff.1 first with ⟨character, rfl, accepted⟩
        rcases mem_repetitions_iff.1 more with ⟨front, rfl, others⟩
        exact ⟨character :: front, rfl, by simp, by simpa [accepted] using others⟩
      · intro described
        rcases described with ⟨piece, rfl, nonempty, accepted⟩
        cases piece with
        | nil => exact absurd rfl nonempty
        | cons character front =>
            refine ⟨[], rest, ⟨front ++ rest, mem_single_iff.2 ?_, mem_repetitions_iff.2 ?_⟩, rfl,
              rfl⟩
            · exact ⟨character, rfl, accepted character (by simp)⟩
            · exact ⟨front, rfl, fun inner member => accepted inner (by simp [member])⟩
  | option body inductionHypothesis =>
      simp only [parsesWith, Describes, List.mem_append, List.mem_singleton, Prod.mk.injEq,
        exists_or, inductionHypothesis, and_or_left]
      rw [or_comm]
      simp [eq_comm]
  | append first second firstHypothesis secondHypothesis =>
      simp only [parsesWith, Describes, List.mem_flatMap, List.mem_map, Prod.mk.injEq]
      constructor
      · intro parsed
        rcases parsed with ⟨_, ⟨captured, middle⟩, firstMember, ⟨later, _⟩, secondMember, -, rfl⟩
        rcases firstHypothesis.1 ⟨captured, firstMember⟩ with ⟨front, rfl, frontDescribed⟩
        rcases secondHypothesis.1 ⟨later, secondMember⟩ with ⟨back, rfl, backDescribed⟩
        exact ⟨front ++ back, by simp, front, back, rfl, frontDescribed, backDescribed⟩
      · intro described
        rcases described with ⟨_, rfl, front, back, rfl, frontDescribed, backDescribed⟩
        obtain ⟨captured, firstMember⟩ :=
          firstHypothesis.2 ⟨front, List.append_assoc _ _ _, frontDescribed⟩
        rcases secondHypothesis.2 ⟨back, rfl, backDescribed⟩ with ⟨later, secondMember⟩
        exact ⟨_, (captured, back ++ rest), firstMember, (later, rest), secondMember, rfl, rfl⟩
  | either first second firstHypothesis secondHypothesis =>
      simp only [Describes, and_or_left, exists_or, ← firstHypothesis, ← secondHypothesis]
      simp only [parsesWith, List.mem_append, List.mem_map, Prod.mk.injEq]
      constructor
      · intro parsed
        rcases parsed with ⟨_, ⟨⟨captured, _⟩, member, -, rfl⟩ | ⟨⟨captured, _⟩, member, -, rfl⟩⟩
        · exact Or.inl ⟨captured, member⟩
        · exact Or.inr ⟨captured, member⟩
      · rintro (⟨captured, member⟩ | ⟨captured, member⟩)
        · exact ⟨_, Or.inl ⟨(captured, rest), member, rfl, rfl⟩⟩
        · exact ⟨_, Or.inr ⟨(captured, rest), member, rfl, rfl⟩⟩
  | capture body inductionHypothesis =>
      simp only [Describes, ← inductionHypothesis]
      simp only [parsesWith, List.mem_map, Prod.mk.injEq]
      constructor
      · intro parsed
        rcases parsed with ⟨_, ⟨captured, _⟩, member, -, rfl⟩
        exact ⟨captured, member⟩
      · intro parsed
        rcases parsed with ⟨captured, member⟩
        exact ⟨_, (captured, rest), member, rfl, rfl⟩

/-- A whole text has a preferred way to match exactly when it is described. -/
theorem fullMatch?_isSome_iff {expression : Regex} {text : Text} :
    (expression.fullMatch? text).isSome ↔ expression.Describes text := by
  have consumesAll : expression.Describes text ↔
      ∃ captured, (captured, []) ∈ expression.parses text := by
    rw [parses, exists_mem_parsesWith_iff]
    simp
  simp only [fullMatch?, List.findSome?_isSome_iff, consumesAll]
  constructor
  · intro preferred
    rcases preferred with ⟨⟨captured, rest⟩, member, matched⟩
    have empty : rest = [] := by
      cases rest with
      | nil => rfl
      | cons character others => simp at matched
    exact ⟨captured, empty ▸ member⟩
  · intro parsed
    rcases parsed with ⟨captured, member⟩
    exact ⟨(captured, []), member, by simp⟩

/-- The matcher accepts exactly the described texts. -/
theorem accepts_iff_describes {expression : Regex} {text : Text} :
    expression.accepts text ↔ expression.Describes text := by
  rw [accepts, captures?_eq_fullMatch?, fullMatch?_isSome_iff]

/-! ## Sequences and choices -/

theorem describes_ofSequence_singleton {item : Regex} {text : Text} :
    (ofSequence [item]).Describes text ↔ item.Describes text := by
  constructor
  · intro described
    rcases described with ⟨front, back, rfl, described, rfl⟩
    rwa [List.append_nil]
  · intro described
    exact ⟨text, [], (List.append_nil text).symm, described, rfl⟩

theorem describes_ofAlternatives {first : Regex} {rest : List Regex} {text : Text} :
    (ofAlternatives first rest).Describes text ↔ ∃ item ∈ first :: rest, item.Describes text := by
  induction rest generalizing first with
  | nil => simp [ofAlternatives]
  | cons next rest inductionHypothesis =>
      rw [ofAlternatives, Describes, inductionHypothesis]
      simp

/-! ## Capture groups -/

/-- The expressions inside the capture groups, in the order of the groups. -/
def groupBodies : Regex → List Regex
  | .empty | .one _ | .star _ | .plus _ => []
  | .option body => body.groupBodies
  | .append first second => first.groupBodies ++ second.groupBodies
  | .either first second => first.groupBodies ++ second.groupBodies
  | .capture body => body :: body.groupBodies

theorem length_groupBodies (expression : Regex) :
    expression.groupBodies.length = expression.groups := by
  induction expression <;> simp_all [groupBodies, groups]

theorem groupBodies_ofSequence (items : List Regex) :
    (ofSequence items).groupBodies = items.flatMap groupBodies := by
  induction items with
  | nil => rfl
  | cons item rest inductionHypothesis =>
      rw [List.flatMap_cons, ← inductionHypothesis]
      rfl

theorem groupBodies_ofAlternatives (first : Regex) (rest : List Regex) :
    (ofAlternatives first rest).groupBodies = (first :: rest).flatMap groupBodies := by
  induction rest generalizing first with
  | nil => simp [ofAlternatives]
  | cons next rest inductionHypothesis =>
      rw [List.flatMap_cons, ← inductionHypothesis]
      rfl

end StepGrammar.Regex
