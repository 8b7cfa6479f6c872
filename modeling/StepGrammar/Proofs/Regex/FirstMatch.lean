import StepGrammar.Proofs.Regex.Language

/-!
Contract: what the preferred match of a sequence captures.

The preferred match of a sequence is the preferred match of its first item after which the others
can match the rest of the text. Two rules decide it: a piece that alone lets the others match is
captured whatever is preferred, and the piece that is preferred is captured when the others can
match behind it.
-/

namespace StepGrammar

theorem consumed_append (piece rest : Text) : consumed (piece ++ rest) rest = piece := by
  simp [consumed]

theorem findSome?_eq_some_of_forall {α β : Type} {select : α → Option β} {items : List α}
    {value : β} (all : ∀ item ∈ items, select item = none ∨ select item = some value)
    (found : ∃ item ∈ items, select item = some value) : items.findSome? select = some value := by
  induction items with
  | nil => simp at found
  | cons head tail inductionHypothesis =>
      rw [List.findSome?_cons]
      rcases all head (by simp) with nothing | selected
      · rw [nothing]
        apply inductionHypothesis
        · intro item member
          exact all item (List.mem_cons_of_mem _ member)
        · rcases found with ⟨item, member, selected⟩
          rcases List.mem_cons.1 member with rfl | later
          · rw [nothing] at selected
            contradiction
          · exact ⟨item, later, selected⟩
      · rw [selected]

namespace Regex

theorem length_of_mem_parsesWith {γ : Type} {record : Text → Text → γ} {expression : Regex}
    {text : Text} {parse : List (Option γ) × Text}
    (member : parse ∈ expression.parsesWith record text) : parse.1.length = expression.groups := by
  induction expression generalizing text parse with
  | empty => simp_all [parsesWith, groups]
  | one chars | star chars | plus chars =>
      rcases List.mem_map.1 member with ⟨rest, -, rfl⟩
      rfl
  | option body inductionHypothesis =>
      rcases List.mem_append.1 member with taken | skipped
      · exact inductionHypothesis taken
      · rw [List.mem_singleton.1 skipped]
        simp [absent, groups]
  | append first second firstHypothesis secondHypothesis =>
      rcases List.mem_flatMap.1 member with ⟨earlier, earlierMember, laterMember⟩
      rcases List.mem_map.1 laterMember with ⟨later, laterParse, rfl⟩
      rw [List.length_append, firstHypothesis earlierMember, secondHypothesis laterParse, groups]
  | either first second firstHypothesis secondHypothesis =>
      rcases List.mem_append.1 member with left | right
      · rcases List.mem_map.1 left with ⟨inner, innerMember, rfl⟩
        simp [absent, groups, firstHypothesis innerMember]
      · rcases List.mem_map.1 right with ⟨inner, innerMember, rfl⟩
        simp [absent, groups, secondHypothesis innerMember]
  | capture body inductionHypothesis =>
      rcases List.mem_map.1 member with ⟨inner, innerMember, rfl⟩
      rw [List.length_cons, inductionHypothesis innerMember, groups]

/-- Without groups, a choice is read in the ways of its first operand and then those of its second.
-/
theorem parses_either {first second : Regex} (firstSilent : first.groups = 0)
    (secondSilent : second.groups = 0) (text : Text) :
    (either first second).parses text = first.parses text ++ second.parses text := by
  simp [parses, parsesWith, absent, firstSilent, secondSilent]

/-- A greedy repetition first takes all characters up to one that its class refuses. -/
theorem repetitions_append {chars : CharClass} {content rest : Text}
    (inside : ∀ character ∈ content, chars.accepts character)
    (stops : ∀ character ∈ rest.head?, chars.accepts character = false) :
    ∃ others, repetitions chars (content ++ rest) = rest :: others := by
  induction content with
  | nil =>
      cases rest with
      | nil => exact ⟨[], rfl⟩
      | cons character later =>
          have refused : chars.accepts character = false := stops character rfl
          exact ⟨[], by simp [repetitions, refused]⟩
  | cons character content inductionHypothesis =>
      have accepted := (List.forall_mem_cons.1 inside).1
      have insideRest := (List.forall_mem_cons.1 inside).2
      rcases inductionHypothesis insideRest with ⟨others, first⟩
      exact ⟨others ++ [character :: (content ++ rest)], by simp [repetitions, accepted, first]⟩

/-- A quoted stretch is first read up to its closing quote. -/
theorem parses_quoted {quote : Char} {content : Text} (free : quote ∉ content) (rest : Text) :
    ∃ others, (ofSequence [.one (.only quote), .star (.except quote), .one (.only quote)]).parses
        (quote :: (content ++ quote :: rest)) = ([], rest) :: others := by
  obtain ⟨others, longest⟩ : ∃ others,
      repetitions (.except quote) (content ++ quote :: rest) = (quote :: rest) :: others := by
    apply repetitions_append
    · intro character member
      have different : character ≠ quote := fun same => free (same ▸ member)
      simpa [CharClass.accepts] using different
    · simp [CharClass.accepts]
  exact ⟨_, by simp [ofSequence, parses, parsesWith, single, CharClass.accepts, longest]; rfl⟩

theorem parses_quoted_of_ne {quote character : Char} (different : character ≠ quote) (rest : Text) :
    (ofSequence [.one (.only quote), .star (.except quote), .one (.only quote)]).parses
        (character :: rest) = [] := by
  simp [ofSequence, parses, parsesWith, single, CharClass.accepts, different]

theorem parses_star_append {chars : CharClass} {content rest : Text}
    (inside : ∀ character ∈ content, chars.accepts character)
    (stops : ∀ character ∈ rest.head?, chars.accepts character = false) :
    ∃ others, (star chars).parses (content ++ rest) = ([], rest) :: others := by
  obtain ⟨others, longest⟩ := repetitions_append inside stops
  exact ⟨_, by rw [parses, parsesWith, longest, List.map_cons]⟩

theorem parses_plus_append {chars : CharClass} {content rest : Text} (nonempty : content ≠ [])
    (inside : ∀ character ∈ content, chars.accepts character)
    (stops : ∀ character ∈ rest.head?, chars.accepts character = false) :
    ∃ others, (plus chars).parses (content ++ rest) = ([], rest) :: others := by
  cases content with
  | nil => exact absurd rfl nonempty
  | cons character content =>
      obtain ⟨accepted, others⟩ := List.forall_mem_cons.1 inside
      obtain ⟨shorter, longest⟩ := repetitions_append others stops
      refine ⟨shorter.map fun remaining => ([], remaining), ?_⟩
      simp [parses, parsesWith, single, accepted, longest]

/-- An optional character that does not stand at the start of the text is left out. -/
theorem parses_option_of_ne {character : Char} {text : Text}
    (different : text.head? ≠ some character) :
    (option (.one (.only character))).parses text = [([], text)] := by
  cases text with
  | nil => rfl
  | cons first rest =>
      have refused : first ≠ character := by simpa using different
      simp [parses, parsesWith, single, CharClass.accepts, refused, absent, groups]

theorem parses_option_of_eq (character : Char) (rest : Text) :
    (option (.one (.only character))).parses (character :: rest) =
      [([], rest), ([], character :: rest)] := by
  simp [parses, parsesWith, single, CharClass.accepts, absent, groups]

/-- The first way of a sequence is the first way of its second operand behind the first way of its
first operand. -/
theorem parses_append_first {first second : Regex} {text middle rest : Text}
    (leads : ∃ others, first.parses text = ([], middle) :: others)
    (follows : ∃ others, second.parses middle = ([], rest) :: others) :
    ∃ others, (append first second).parses text = ([], rest) :: others := by
  obtain ⟨firstOthers, firstWays⟩ := leads
  obtain ⟨secondOthers, secondWays⟩ := follows
  unfold parses at firstWays secondWays ⊢
  exact ⟨_, by simp only [parsesWith, firstWays, List.flatMap_cons, secondWays]; rfl⟩

/-- The preferred match of a sequence of two takes the first way of the first operand after which
the second matches the rest. -/
theorem fullMatch?_append (first second : Regex) (text : Text) :
    (append first second).fullMatch? text =
      (first.parses text).findSome? fun parse =>
        (second.fullMatch? parse.2).map fun later => parse.1 ++ later := by
  simp only [fullMatch?, parses, parsesWith, findSome?_flatMap_eq, List.findSome?_map,
    map_findSome?]
  congr
  funext parse
  congr
  funext later
  simp only [Function.comp_apply]
  split <;> rfl

theorem fullMatch?_capture_append (body next : Regex) (text : Text) :
    (append (.capture body) next).fullMatch? text =
      (body.parses text).findSome? fun parse =>
        (next.fullMatch? parse.2).map fun later =>
          some (consumed text parse.2) :: (parse.1 ++ later) := by
  rw [fullMatch?_append, parses, parsesWith, List.findSome?_map]
  rfl

theorem fullMatch?_only_append (character : Char) (next : Regex) (text : Text) :
    (append (.one (.only character)) next).fullMatch? (character :: text) =
      next.fullMatch? text := by
  rw [fullMatch?_append]
  cases matched : next.fullMatch? text <;>
    simp [parses, parsesWith, single, CharClass.accepts, matched]

/-! ## Every way to match -/

/-- Groups that all took part hold their captures. -/
theorem map_getD_map_some (captures : List Text) :
    (captures.map some).map (fun capture => capture.getD []) = captures := by
  rw [List.map_map]
  exact List.map_id _

theorem mem_parses_of_fullMatch? {expression : Regex} {text : Text} {captures : Captures}
    (matched : expression.fullMatch? text = some captures) :
    (captures, []) ∈ expression.parses text := by
  obtain ⟨⟨captured, rest⟩, member, selected⟩ := List.exists_of_findSome?_eq_some matched
  obtain ⟨ended, same⟩ := Option.ite_none_right_eq_some.1 selected
  obtain rfl := List.isEmpty_iff.1 ended
  obtain rfl := Option.some.inj same
  exact member

theorem mem_parses_append_iff {first second : Regex} {text : Text} {parse : Captures × Text} :
    parse ∈ (append first second).parses text ↔
      ∃ earlier ∈ first.parses text, ∃ later ∈ second.parses earlier.2,
        (earlier.1 ++ later.1, later.2) = parse := by
  rw [parses, parsesWith, List.mem_flatMap]
  simp only [List.mem_map]
  rfl

theorem eq_nil_of_mem_parses {expression : Regex} (noGroups : expression.groups = 0) {text : Text}
    {parse : Captures × Text} (member : parse ∈ expression.parses text) : parse.1 = [] := by
  have length := length_of_mem_parsesWith member
  rw [noGroups] at length
  exact List.eq_nil_of_length_eq_zero length

/-- A way to match a capture group and what follows cuts a piece off the text. -/
theorem exists_piece_of_mem_parses {body next : Regex} (noGroups : body.groups = 0) {text : Text}
    {parse : Captures × Text} (member : parse ∈ (append (.capture body) next).parses text) :
    ∃ piece behind later, text = piece ++ behind ∧ body.Describes piece ∧
      parse.1 = some piece :: later ∧ (later, parse.2) ∈ next.parses behind := by
  obtain ⟨earlier, earlierMember, later, laterMember, rfl⟩ := mem_parses_append_iff.1 member
  obtain ⟨⟨captured, behind⟩, innerMember, rfl⟩ := List.mem_map.1 earlierMember
  obtain ⟨piece, rfl, described⟩ := exists_mem_parsesWith_iff.1 ⟨captured, innerMember⟩
  obtain rfl := eq_nil_of_mem_parses noGroups innerMember
  refine ⟨piece, behind, later.1, rfl, described, ?_, laterMember⟩
  simp only [consumed_append]
  rfl

/-! ## The preferred way -/

variable {body next : Regex} {piece rest : Text} {later : Captures}

/-- A capture group holds the only piece behind which the others match. -/
theorem fullMatch?_capture_of_unique (noGroups : body.groups = 0) (described : body.Describes piece)
    (matched : next.fullMatch? rest = some later)
    (unique : ∀ front back, piece ++ rest = front ++ back → body.Describes front →
      next.Describes back → back = rest) :
    (append (.capture body) next).fullMatch? (piece ++ rest) = some (some piece :: later) := by
  have silent : ∀ parse ∈ body.parses (piece ++ rest), parse.1 = [] := fun _ =>
    eq_nil_of_mem_parses noGroups
  have atRest : ∀ parse ∈ body.parses (piece ++ rest), parse.2 = rest →
      ((next.fullMatch? parse.2).map fun later =>
        some (consumed (piece ++ rest) parse.2) :: (parse.1 ++ later)) =
          some (some piece :: later) := by
    intro parse member isRest
    rw [isRest, matched, silent parse member, consumed_append]
    rfl
  rw [fullMatch?_capture_append]
  apply findSome?_eq_some_of_forall
  · intro parse member
    cases continues : next.fullMatch? parse.2 with
    | none => exact Or.inl rfl
    | some captures =>
        rcases exists_mem_parsesWith_iff.1 ⟨parse.1, member⟩ with ⟨front, split, frontDescribed⟩
        have backDescribed := fullMatch?_isSome_iff.1 (by rw [continues]; rfl)
        rw [← continues]
        exact Or.inr (atRest parse member (unique _ _ split frontDescribed backDescribed))
  · obtain ⟨captured, member⟩ : ∃ captured, (captured, rest) ∈ body.parses (piece ++ rest) :=
      exists_mem_parsesWith_iff.2 ⟨piece, rfl, described⟩
    exact ⟨_, member, atRest _ member rfl⟩

/-- A capture group holds the preferred piece when the others match behind it. -/
theorem fullMatch?_capture_of_preferred {others : List (Captures × Text)}
    (preferred : body.parses (piece ++ rest) = ([], rest) :: others)
    (matched : next.fullMatch? rest = some later) :
    (append (.capture body) next).fullMatch? (piece ++ rest) = some (some piece :: later) := by
  rw [fullMatch?_capture_append, preferred, List.findSome?_cons, matched, consumed_append]
  rfl

end Regex

end StepGrammar
