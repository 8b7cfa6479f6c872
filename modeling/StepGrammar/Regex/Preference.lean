import StepGrammar.Regex.Match

/-!
Contract: the matcher finds the preferred way to match.

`column_ofPositions` says that the column of an expression lists, for every position, what the
first way that can go on yields. `captures?_eq_fullMatch?` concludes that the matcher and the
meaning of expressions agree on every text.
-/

namespace StepGrammar

namespace Column

variable {α β : Type}

/-- The column of a function on the suffixes of a text, for a position and all before it. The text
is given as the characters before the position, the nearest first, and those after it. -/
def ofPositions (yields : Text → Option α) : (before after : Text) → Column α
  | [], after => single [] after.length (yields after)
  | character :: before, after =>
    single (character :: before) after.length (yields after) ++
      ofPositions yields before (character :: after)

theorem length_le_of_mem_ofPositions {yields : Text → Option α} {before after : Text}
    {entry : Entry α} (member : entry ∈ ofPositions yields before after) :
    after.length ≤ entry.after := by
  induction before generalizing after with
  | nil =>
      simp only [ofPositions, single] at member
      split at member <;> simp_all
  | cons character before inductionHypothesis =>
      rcases List.mem_append.1 member with here | earlier
      · simp only [single] at here
        split at here <;> simp_all
      · have := inductionHypothesis earlier
        simp only [List.length_cons] at this
        omega

theorem atStart?_ofPositions (yields : Text → Option α) (before after : Text) :
    atStart? (ofPositions yields before after) = yields (before.reverse ++ after) := by
  induction before generalizing after with
  | nil => cases h : yields after <;> simp [ofPositions, single, atStart?, h]
  | cons character before inductionHypothesis =>
      have tail := inductionHypothesis (character :: after)
      simp only [atStart?] at tail
      cases h : yields after <;> simp [ofPositions, single, atStart?, h, tail]

theorem head?_ofPositions (yields : Text → Option α) (before after : Text) :
    head? after.length (ofPositions yields before after) = yields after := by
  cases before with
  | nil => cases h : yields after <;> simp [ofPositions, single, head?, h]
  | cons character before =>
      cases h : yields after with
      | some value => simp [ofPositions, single, head?, h]
      | none =>
          simp only [ofPositions, single, h, List.nil_append]
          cases positions : ofPositions yields before (character :: after) with
          | nil => rfl
          | cons entry rest =>
              have bound : (character :: after).length ≤ entry.after :=
                length_le_of_mem_ofPositions (positions ▸ List.mem_cons_self)
              simp only [List.length_cons] at bound
              simp only [head?]
              rw [if_neg (by omega)]

theorem earlier_eq_self {column : Column α} {after : Nat}
    (bound : ∀ entry ∈ column, after < entry.after) : earlier after column = column := by
  cases column with
  | nil => rfl
  | cons entry rest =>
      have := bound entry List.mem_cons_self
      simp only [earlier, List.dropWhile_cons]
      rw [if_neg (by simpa using this)]

theorem earlier_ofPositions (yields : Text → Option α) (character : Char) (before after : Text) :
    earlier after.length (ofPositions yields (character :: before) after) =
      ofPositions yields before (character :: after) := by
  have rest : earlier after.length (ofPositions yields before (character :: after)) =
      ofPositions yields before (character :: after) :=
    earlier_eq_self fun entry member => length_le_of_mem_ofPositions member
  cases h : yields after with
  | none => simpa [ofPositions, single, h] using rest
  | some value =>
      simp only [ofPositions, single, h, List.singleton_append]
      rw [earlier, List.dropWhile_cons, if_pos (by simp)]
      exact rest

theorem step_ofPositions (chars : CharClass) (yields : Text → Option α) (before after : Text) :
    step chars (ofPositions yields before after) =
      match before with
      | [] => []
      | character :: others =>
        ofPositions (fun suffix => (Regex.single chars suffix).findSome? yields) others
          (character :: after) := by
  induction before generalizing after with
  | nil =>
      cases h : yields after <;> simp [ofPositions, single, step, h, Entry.back?]
  | cons character before inductionHypothesis =>
      have tail := inductionHypothesis (character :: after)
      simp only [step] at tail
      simp only [step, ofPositions, List.filterMap_append, tail]
      cases before with
      | nil =>
          cases h : yields after <;> by_cases accepted : chars.accepts character = true <;>
            simp [single, Entry.back?, Regex.single, ofPositions, h, accepted]
      | cons next others =>
          cases h : yields after <;> by_cases accepted : chars.accepts character = true <;>
            simp [single, Entry.back?, Regex.single, ofPositions, h, accepted]

/-- From the end of a text on, a step leads from one column to another. -/
theorem step_ofPositions_nil (chars : CharClass) (yields : Text → Option α) (before : Text) :
    step chars (ofPositions yields before []) =
      ofPositions (fun suffix => (Regex.single chars suffix).findSome? yields) before [] := by
  rw [step_ofPositions]
  cases before <;> simp [ofPositions, single, Regex.single]

theorem repeatedFrom_ofPositions (chars : CharClass) (yields : Text → Option α)
    (before after : Text) :
    repeatedFrom chars
        (match after with
          | [] => none
          | character :: rest =>
            if chars.accepts character then
              (Regex.repetitions chars rest).findSome? yields
            else none)
        after.length before (ofPositions yields before after) =
      ofPositions (fun suffix => (Regex.repetitions chars suffix).findSome? yields) before
        after := by
  have yielded : ∀ text : Text,
      ((match text with
          | [] => none
          | character :: rest =>
            if chars.accepts character then
              (Regex.repetitions chars rest).findSome? yields
            else none).or (yields text)) =
        (Regex.repetitions chars text).findSome? yields := by
    intro text
    cases text with
    | nil => simp [Regex.repetitions]
    | cons character rest =>
        simp only [Regex.repetitions]
        split <;> simp [List.findSome?_append]
  induction before generalizing after with
  | nil =>
      simp only [repeatedFrom, head?_ofPositions, yielded]
      rfl
  | cons character before inductionHypothesis =>
      simp only [repeatedFrom, head?_ofPositions, earlier_ofPositions, yielded]
      rw [ofPositions, ← inductionHypothesis (character :: after)]
      rfl

theorem repeated_ofPositions (chars : CharClass) (yields : Text → Option α) (before : Text) :
    repeated chars before (ofPositions yields before []) =
      ofPositions (fun suffix => (Regex.repetitions chars suffix).findSome? yields) before [] :=
  repeatedFrom_ofPositions chars yields before []

theorem transform_ofPositions (change : α → β) (yields : Text → Option α) (before after : Text) :
    transform change (ofPositions yields before after) =
      ofPositions (fun suffix => (yields suffix).map change) before after := by
  induction before generalizing after with
  | nil => cases h : yields after <;> simp [ofPositions, single, transform, h]
  | cons character before inductionHypothesis =>
      have tail := inductionHypothesis (character :: after)
      simp only [transform] at tail
      cases h : yields after <;> simp [ofPositions, single, transform, h, tail]

theorem measured_ofPositions (yields : Text → Option α) (before after : Text) :
    measured (ofPositions yields before after) =
      ofPositions (fun suffix => (yields suffix).map fun value => (suffix.length, value)) before
        after := by
  induction before generalizing after with
  | nil => cases h : yields after <;> simp [ofPositions, single, measured, h]
  | cons character before inductionHypothesis =>
      have tail := inductionHypothesis (character :: after)
      simp only [measured] at tail
      cases h : yields after <;> simp [ofPositions, single, measured, h, tail]

theorem orElse_cons_of_lt {preferred other : Column α} {entry : Entry α}
    (bound : ∀ candidate ∈ preferred, entry.after < candidate.after) :
    orElse preferred (entry :: other) = entry :: orElse preferred other := by
  cases preferred with
  | nil => rfl
  | cons first rest =>
      have := bound first List.mem_cons_self
      simp only [orElse, earlier, List.takeWhile_cons, List.dropWhile_cons]
      rw [if_pos (by simpa using this), if_pos (by simpa using Nat.le_of_lt this)]
      rfl

theorem cons_orElse_of_le {preferred other : Column α} {entry : Entry α}
    (bound : ∀ candidate ∈ other, entry.after ≤ candidate.after) :
    orElse (entry :: preferred) other = entry :: orElse preferred (earlier entry.after other) := by
  have empty : (other.takeWhile fun candidate => candidate.after < entry.after) = [] := by
    cases other with
    | nil => rfl
    | cons first rest =>
        have := bound first List.mem_cons_self
        rw [List.takeWhile_cons, if_neg (by simpa using this)]
  simp [orElse, empty]

theorem orElse_ofPositions (preferred other : Text → Option α) (before after : Text) :
    orElse (ofPositions preferred before after) (ofPositions other before after) =
      ofPositions (fun suffix => (preferred suffix).or (other suffix)) before after := by
  induction before generalizing after with
  | nil =>
      cases h : preferred after <;> cases k : other after <;>
        simp [ofPositions, single, orElse, earlier, h, k]
  | cons character before inductionHypothesis =>
      cases h : preferred after with
      | none =>
          cases k : other after with
          | none => simp [ofPositions, single, h, k, inductionHypothesis]
          | some value =>
              simp only [ofPositions, single, h, k, List.nil_append, List.singleton_append,
                Option.none_or]
              have bound : ∀ candidate ∈ ofPositions preferred before (character :: after),
                  after.length < candidate.after :=
                fun candidate member => length_le_of_mem_ofPositions member
              rw [orElse_cons_of_lt bound, inductionHypothesis]
      | some value =>
          have bound : ∀ candidate ∈ ofPositions other (character :: before) after,
              after.length ≤ candidate.after :=
            fun candidate member => length_le_of_mem_ofPositions member
          rw [ofPositions.eq_2 preferred, h]
          simp only [single, List.singleton_append]
          rw [cons_orElse_of_le bound, earlier_ofPositions, inductionHypothesis]
          simp [ofPositions, single, h]

theorem ofPositions_isEmpty_cons (character : Char) (before after : Text) :
    ofPositions (fun suffix => if suffix.isEmpty then some () else none) before
      (character :: after) = [] := by
  induction before generalizing character after with
  | nil => simp [ofPositions, single]
  | cons next before inductionHypothesis =>
      rw [ofPositions, inductionHypothesis]
      rfl

/-- The column that yields at the end of the text only. -/
theorem singleton_eq_ofPositions (reversed : Text) :
    [⟨reversed, 0, ()⟩] =
      ofPositions (fun suffix => if suffix.isEmpty then some () else none) reversed [] := by
  cases reversed with
  | nil => rfl
  | cons character before =>
      rw [ofPositions, ofPositions_isEmpty_cons]
      rfl

end Column

theorem findSome?_flatMap_eq {α β γ : Type} (select : β → Option γ) (expand : α → List β)
    (items : List α) :
    (items.flatMap expand).findSome? select =
      items.findSome? fun item => (expand item).findSome? select := by
  induction items with
  | nil => rfl
  | cons head tail inductionHypothesis =>
      simp only [List.flatMap_cons, List.findSome?_append, inductionHypothesis, List.findSome?_cons]
      cases (expand head).findSome? select <;> rfl

theorem map_findSome? {α β γ : Type} (select : α → Option β) (change : β → γ) (items : List α) :
    (items.findSome? select).map change = items.findSome? fun item => (select item).map change := by
  induction items with
  | nil => rfl
  | cons head tail inductionHypothesis =>
      simp only [List.findSome?_cons]
      cases select head <;> simp [inductionHypothesis]

namespace Regex

def extentOf (text rest : Text) : Extent := ⟨text.length, rest.length⟩

/-- What the first way to match that goes on to yield something gives, with the extents of its
groups. -/
def firstYield {α : Type} (expression : Regex) (yields : Text → Option α) (text : Text) :
    Option (List (Option Extent) × α) :=
  (expression.parsesWith extentOf text).findSome? fun parse =>
    (yields parse.2).map fun value => (parse.1, value)

/-- The column before an expression lists what its first way to go on yields. -/
theorem column_ofPositions (expression : Regex) {α : Type} (yields : Text → Option α)
    (reversed : Text) :
    expression.column reversed (Column.ofPositions yields reversed []) =
      Column.ofPositions (expression.firstYield yields) reversed [] := by
  induction expression generalizing α with
  | empty =>
      simp only [column, Column.transform_ofPositions]
      congr; funext suffix
      simp [firstYield, parsesWith]
  | one chars =>
      simp only [column, Column.step_ofPositions_nil, Column.transform_ofPositions]
      congr; funext suffix
      simp [firstYield, parsesWith, List.findSome?_map, Function.comp_def]
  | star chars =>
      simp only [column, Column.repeated_ofPositions, Column.transform_ofPositions]
      congr; funext suffix
      simp [firstYield, parsesWith, List.findSome?_map, Function.comp_def]
  | plus chars =>
      simp only [column, Column.repeated_ofPositions, Column.step_ofPositions_nil,
        Column.transform_ofPositions]
      congr; funext suffix
      simp [firstYield, parsesWith, List.findSome?_map, Function.comp_def, findSome?_flatMap_eq]
  | option body inductionHypothesis =>
      simp only [column, inductionHypothesis, Column.transform_ofPositions,
        Column.orElse_ofPositions]
      congr; funext suffix
      simp [firstYield, parsesWith, List.findSome?_append]
  | append first second firstHypothesis secondHypothesis =>
      simp only [column, firstHypothesis, secondHypothesis, Column.transform_ofPositions]
      congr; funext suffix
      simp [firstYield, parsesWith, findSome?_flatMap_eq, List.findSome?_map, Function.comp_def]
  | either first second firstHypothesis secondHypothesis =>
      simp only [column, firstHypothesis, secondHypothesis, Column.transform_ofPositions,
        Column.orElse_ofPositions]
      congr; funext suffix
      simp [firstYield, parsesWith, List.findSome?_map, List.findSome?_append, Function.comp_def]
  | capture body inductionHypothesis =>
      simp only [column, Column.measured_ofPositions, inductionHypothesis,
        Column.transform_ofPositions]
      congr; funext suffix
      simp [firstYield, parsesWith, List.findSome?_map, extentOf, Function.comp_def]

theorem suffix_of_mem_repetitions {chars : CharClass} {text rest : Text}
    (member : rest ∈ repetitions chars text) : rest <:+ text := by
  induction text with
  | nil => simp_all [repetitions]
  | cons character others inductionHypothesis =>
      simp only [repetitions] at member
      split at member
      · rcases List.mem_append.1 member with earlier | last
        · exact (inductionHypothesis earlier).trans (List.suffix_cons character others)
        · simp_all
      · simp_all

theorem suffix_of_mem_single {chars : CharClass} {text rest : Text}
    (member : rest ∈ single chars text) : rest <:+ text := by
  cases text with
  | nil => simp_all [single]
  | cons character others =>
      simp only [single] at member
      split at member <;> simp_all

/-- What a way to match leaves over is the end of the text. -/
theorem suffix_of_mem_parsesWith {γ : Type} {record : Text → Text → γ} {expression : Regex}
    {text : Text} {parse : List (Option γ) × Text}
    (member : parse ∈ expression.parsesWith record text) :
    parse.2 <:+ text := by
  induction expression generalizing text parse with
  | empty => simp_all [parsesWith]
  | one chars =>
      obtain ⟨rest, restMember, rfl⟩ := List.mem_map.1 member
      exact suffix_of_mem_single restMember
  | star chars =>
      obtain ⟨rest, restMember, rfl⟩ := List.mem_map.1 member
      exact suffix_of_mem_repetitions restMember
  | plus chars =>
      obtain ⟨rest, restMember, rfl⟩ := List.mem_map.1 member
      obtain ⟨first, firstMember, laterMember⟩ := List.mem_flatMap.1 restMember
      exact (suffix_of_mem_repetitions laterMember).trans (suffix_of_mem_single firstMember)
  | option body inductionHypothesis =>
      rcases List.mem_append.1 member with taken | skipped
      · exact inductionHypothesis taken
      · simp_all
  | append first second firstHypothesis secondHypothesis =>
      obtain ⟨earlier, earlierMember, laterMember⟩ := List.mem_flatMap.1 member
      obtain ⟨later, laterParse, rfl⟩ := List.mem_map.1 laterMember
      exact (secondHypothesis laterParse).trans (firstHypothesis earlierMember)
  | either first second firstHypothesis secondHypothesis =>
      rcases List.mem_append.1 member with left | right
      · obtain ⟨inner, innerMember, rfl⟩ := List.mem_map.1 left
        have innerSuffix := firstHypothesis innerMember
        exact innerSuffix
      · obtain ⟨inner, innerMember, rfl⟩ := List.mem_map.1 right
        have innerSuffix := secondHypothesis innerMember
        exact innerSuffix
  | capture body inductionHypothesis =>
      obtain ⟨inner, innerMember, rfl⟩ := List.mem_map.1 member
      have innerSuffix := inductionHypothesis innerMember
      exact innerSuffix

end Regex

/-- An extent that begins with a suffix of a text cuts out what that suffix consumed. -/
theorem Extent.cut_extentOf {text suffix rest : Text} (isSuffix : suffix <:+ text) :
    Extent.cut text (Regex.extentOf suffix rest) = consumed suffix rest := by
  obtain ⟨front, rfl⟩ := isSuffix
  simp [Extent.cut, Regex.extentOf, consumed]

namespace Regex

/-- The pieces of the groups are the cuts of their extents. -/
theorem parses_eq_map_extents {text suffix : Text} (isSuffix : suffix <:+ text)
    (expression : Regex) :
    expression.parses suffix =
      (expression.parsesWith extentOf suffix).map fun parse =>
        (parse.1.map (Option.map (Extent.cut text)), parse.2) := by
  unfold parses
  induction expression generalizing suffix with
  | empty => simp [parsesWith]
  | one chars => simp [parsesWith]
  | star chars => simp [parsesWith]
  | plus chars => simp [parsesWith]
  | option body inductionHypothesis => simp [parsesWith, inductionHypothesis isSuffix, absent]
  | append first second firstHypothesis secondHypothesis =>
      simp only [parsesWith, firstHypothesis isSuffix, List.flatMap_map, List.map_flatMap]
      rw [List.flatMap_def, List.flatMap_def]
      congr 1
      refine List.map_congr_left fun parse member => ?_
      rw [secondHypothesis ((suffix_of_mem_parsesWith member).trans isSuffix)]
      simp [Function.comp_def]
  | either first second firstHypothesis secondHypothesis =>
      simp [parsesWith, firstHypothesis isSuffix, secondHypothesis isSuffix, absent,
        Function.comp_def]
  | capture body inductionHypothesis =>
      simp [parsesWith, inductionHypothesis isSuffix, Extent.cut_extentOf isSuffix]

/-- The matcher gives the captures of the preferred way to match the whole text. -/
theorem captures?_eq_fullMatch? (expression : Regex) (text : Text) :
    expression.captures? text = expression.fullMatch? text := by
  unfold captures? fullMatch?
  rw [Column.singleton_eq_ofPositions, column_ofPositions, Column.atStart?_ofPositions,
    List.reverse_reverse, List.append_nil, parses_eq_map_extents (List.suffix_refl text),
    firstYield, map_findSome?, List.findSome?_map]
  congr; funext parse
  simp only [Function.comp_apply]
  split <;> simp

end Regex

end StepGrammar
