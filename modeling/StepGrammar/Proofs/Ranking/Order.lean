import Mathlib.Data.List.Sort
import StepGrammar.Ranking

/-!
Contract: the order in which matches are ranked.

Equal definitions give equal matches, so a ranking alone does not show whether the sort is stable.
Each match is therefore ranked together with the position of its definition. On numbered matches
the order is strict, and a list sorted by a strict order is determined by its members: rankings
with the same members are equal.
-/

namespace StepGrammar

@[ext]
structure PlacedMatch where
  position : Nat
  entry : RankedMatch
deriving DecidableEq, Repr

namespace PlacedMatch

/-- Whether the score of a match is at least that of another. -/
def leads (first second : PlacedMatch) : Bool := second.entry.score ≤ first.entry.score

/-- Whether a match is ranked before another: it has the higher score, or the same score and the
earlier definition. -/
def Precedes (first second : PlacedMatch) : Prop :=
  second.entry.score < first.entry.score ∨
    (second.entry.score = first.entry.score ∧ first.position < second.position)

theorem leads_trans (first second third : PlacedMatch) (leading : first.leads second)
    (following : second.leads third) : first.leads third := by
  simp only [leads, decide_eq_true_eq] at *
  omega

theorem leads_total (first second : PlacedMatch) : first.leads second || second.leads first := by
  simp only [leads, Bool.or_eq_true, decide_eq_true_eq]
  exact Nat.le_total _ _

theorem not_precedes_self (placed : PlacedMatch) : ¬placed.Precedes placed := by
  simp [Precedes]

instance : Std.Irrefl Precedes := ⟨not_precedes_self⟩

instance : Std.Antisymm Precedes where
  antisymm first second leading following := by
    simp only [Precedes] at leading following
    omega

/-- Sorting matches in the order of their definitions ranks them. -/
theorem pairwise_mergeSort_leads {placed : List PlacedMatch}
    (increasing : placed.Pairwise fun first second => first.position < second.position) :
    (placed.mergeSort leads).Pairwise Precedes := by
  induction placed with
  | nil => simp
  | cons first rest inductionHypothesis =>
      rw [List.pairwise_cons] at increasing
      obtain ⟨before, behind, sorted, restSorted, notLed⟩ :=
        List.mergeSort_cons leads_trans leads_total first rest
      have ranked := inductionHypothesis increasing.2
      have leading := List.pairwise_mergeSort leads_trans leads_total (first :: rest)
      rw [restSorted, List.pairwise_append] at ranked
      rw [sorted, List.pairwise_append, List.pairwise_cons] at leading
      rw [sorted, List.pairwise_append, List.pairwise_cons]
      -- What stands behind has a later definition, so an equal score keeps it behind.
      have precedesBehind : ∀ other ∈ behind, first.Precedes other := by
        intro other member
        have inRest : other ∈ rest := by
          apply (List.mergeSort_perm rest leads).mem_iff.1
          rw [restSorted]
          exact List.mem_append_right _ member
        have later := increasing.1 other inRest
        have score := leading.2.1.1 other member
        simp only [leads, decide_eq_true_eq] at score
        simp only [Precedes]
        omega
      refine ⟨ranked.1, ⟨precedesBehind, ranked.2.1⟩, ?_⟩
      intro other member last lastMember
      rcases List.mem_cons.1 lastMember with rfl | inBehind
      · have score := notLed other member
        simp only [leads, Bool.not_eq_true', decide_eq_false_iff_not] at score
        exact Or.inl (Nat.lt_of_not_le score)
      · exact ranked.2.2 other member last inBehind

end PlacedMatch

variable {text : Text} {keyword : StepKeyword} {definitions : List StepDefinition}

/-! ## One definition -/

/-- Whether a step may use a definition and matches it. -/
def StepDefinition.isUsable (text : Text) (keyword : StepKeyword) (definition : StepDefinition) :
    Bool :=
  keyword.accepts definition.keyword && (matchStep? text definition).isSome

def usableMatch? (text : Text) (keyword : StepKeyword) (definition : StepDefinition) :
    Option RankedMatch :=
  if keyword.accepts definition.keyword then rankedMatch? text definition else none

theorem usableMatch?_eq_some_iff {definition : StepDefinition} {entry : RankedMatch} :
    usableMatch? text keyword definition = some entry ↔
      keyword.accepts definition.keyword ∧ matchStep? text definition = some entry.result ∧
        entry.score = specificity definition.args := by
  rw [usableMatch?, rankedMatch?, Option.ite_none_right_eq_some, Option.map_eq_some_iff]
  apply and_congr_right
  intro accepted
  constructor
  · rintro ⟨result, matched, rfl⟩
    exact ⟨matched, rfl⟩
  · rintro ⟨matched, score⟩
    exact ⟨_, matched, by rw [← score]⟩

theorem usableMatch?_isSome (text : Text) (keyword : StepKeyword) (definition : StepDefinition) :
    (usableMatch? text keyword definition).isSome = definition.isUsable text keyword := by
  rw [usableMatch?, StepDefinition.isUsable]
  cases keyword.accepts definition.keyword with
  | false => rfl
  | true => exact Option.isSome_map

theorem isFallback_eq_false {definition : StepDefinition} {result : MatchResult}
    (matched : matchStep? text definition = some result) : result.isFallback = false := by
  unfold matchStep? at matched
  split at matched
  case h_1 => simp at matched
  case h_2 =>
    obtain ⟨captures, -, rfl⟩ := Option.map_eq_some_iff.1 matched
    rfl

/-! ## Numbered definitions -/

theorem rankMatches_eq (text : Text) (keyword : StepKeyword) (definitions : List StepDefinition) :
    rankMatches text keyword definitions =
      (definitions.filterMap (usableMatch? text keyword)).mergeSort
        fun first second => second.score ≤ first.score := by
  rw [rankMatches, candidates, List.filterMap_filter]
  rfl

def placedMatch? (text : Text) (keyword : StepKeyword) (numbered : StepDefinition × Nat) :
    Option PlacedMatch :=
  (usableMatch? text keyword numbered.1).map (PlacedMatch.mk numbered.2)

def placedRanking (text : Text) (keyword : StepKeyword) (numbered : List (StepDefinition × Nat)) :
    List PlacedMatch :=
  (numbered.filterMap (placedMatch? text keyword)).mergeSort PlacedMatch.leads

variable {numbered : List (StepDefinition × Nat)}

theorem placedMatch?_eq_some_iff {own : StepDefinition × Nat} {placed : PlacedMatch} :
    placedMatch? text keyword own = some placed ↔
      own.2 = placed.position ∧ usableMatch? text keyword own.1 = some placed.entry := by
  rw [placedMatch?, Option.map_eq_some_iff]
  constructor
  · rintro ⟨entry, matched, rfl⟩
    exact ⟨rfl, matched⟩
  · rintro ⟨position, matched⟩
    exact ⟨_, matched, by rw [position]⟩

theorem mem_placedRanking_iff {placed : PlacedMatch} :
    placed ∈ placedRanking text keyword numbered ↔
      ∃ definition, (definition, placed.position) ∈ numbered ∧
        usableMatch? text keyword definition = some placed.entry := by
  rw [placedRanking, List.mem_mergeSort, List.mem_filterMap]
  simp only [placedMatch?_eq_some_iff]
  constructor
  · rintro ⟨own, member, position, matched⟩
    exact ⟨own.1, by rwa [← position], matched⟩
  · rintro ⟨definition, member, matched⟩
    exact ⟨_, member, rfl, matched⟩

/-- Without the positions a ranking is what the program ranks. -/
theorem map_entry_placedRanking (text : Text) (keyword : StepKeyword)
    (numbered : List (StepDefinition × Nat)) :
    (placedRanking text keyword numbered).map PlacedMatch.entry =
      rankMatches text keyword (numbered.map Prod.fst) := by
  have entries : (numbered.filterMap (placedMatch? text keyword)).map PlacedMatch.entry =
      (numbered.map Prod.fst).filterMap (usableMatch? text keyword) := by
    rw [List.map_filterMap, List.filterMap_map]
    apply List.filterMap_congr
    intro own member
    rw [placedMatch?, Option.map_map]
    exact Option.map_id'
  rw [rankMatches_eq, ← entries, placedRanking]
  exact List.map_mergeSort fun _ _ _ _ => rfl

theorem pairwise_placedRanking
    (increasing : numbered.Pairwise fun first second => first.2 < second.2) :
    (placedRanking text keyword numbered).Pairwise PlacedMatch.Precedes := by
  apply PlacedMatch.pairwise_mergeSort_leads
  rw [List.pairwise_filterMap]
  apply increasing.imp
  intro first second before firstPlaced firstFound secondPlaced secondFound
  rwa [← (placedMatch?_eq_some_iff.1 firstFound).1, ← (placedMatch?_eq_some_iff.1 secondFound).1]

/-- Ranking some of the definitions leaves the others out of the ranking. -/
theorem placedRanking_filter (kept : Nat → Bool)
    (increasing : numbered.Pairwise fun first second => first.2 < second.2) :
    placedRanking text keyword (numbered.filter fun own => kept own.2) =
      (placedRanking text keyword numbered).filter fun placed => kept placed.position := by
  -- Both sides are ranked, so it is enough that they have the same members.
  apply List.Pairwise.eq_of_mem_iff (pairwise_placedRanking (increasing.filter _))
    ((pairwise_placedRanking increasing).filter _)
  intro placed
  rw [List.mem_filter, mem_placedRanking_iff, mem_placedRanking_iff]
  simp only [List.mem_filter]
  constructor
  · rintro ⟨definition, ⟨member, isKept⟩, matched⟩
    exact ⟨⟨definition, member, matched⟩, isKept⟩
  · rintro ⟨⟨definition, member, matched⟩, isKept⟩
    exact ⟨definition, ⟨member, isKept⟩, matched⟩

/-! ## All definitions -/

/-- What it is for numbered matches to be the ranking of a step. -/
structure IsRanking (text : Text) (keyword : StepKeyword) (definitions : List StepDefinition)
    (ranking : List PlacedMatch) : Prop where
  complete : ∀ placed, placed ∈ ranking ↔
    ∃ definition, definitions[placed.position]? = some definition ∧
      keyword.accepts definition.keyword ∧ matchStep? text definition = some placed.entry.result ∧
        placed.entry.score = specificity definition.args
  distinct : (ranking.map PlacedMatch.position).Nodup
  ordered : ranking.Pairwise PlacedMatch.Precedes

theorem pairwise_zipIdx (definitions : List StepDefinition) :
    definitions.zipIdx.Pairwise fun first second => first.2 < second.2 := by
  rw [← List.pairwise_map (R := (· < ·)), List.zipIdx_map_snd]
  exact List.pairwise_lt_range'

theorem isRanking_placedRanking (text : Text) (keyword : StepKeyword)
    (definitions : List StepDefinition) :
    IsRanking text keyword definitions (placedRanking text keyword definitions.zipIdx) := by
  have complete : ∀ placed, placed ∈ placedRanking text keyword definitions.zipIdx ↔
      ∃ definition, definitions[placed.position]? = some definition ∧
        usableMatch? text keyword definition = some placed.entry := by
    intro placed
    simp only [mem_placedRanking_iff, List.mem_zipIdx_iff_getElem?]
  have ordered : (placedRanking text keyword definitions.zipIdx).Pairwise PlacedMatch.Precedes :=
    pairwise_placedRanking (pairwise_zipIdx definitions)
  refine ⟨?_, ?_, ordered⟩
  · simpa only [usableMatch?_eq_some_iff] using complete
  · apply List.Nodup.map_on _ ordered.nodup
    -- A position has one definition, and a definition has one match.
    intro first firstMember second secondMember samePosition
    obtain ⟨definition, found, matched⟩ := (complete first).1 firstMember
    obtain ⟨other, otherFound, otherMatched⟩ := (complete second).1 secondMember
    rw [samePosition, otherFound] at found
    obtain rfl := Option.some.inj found
    rw [matched] at otherMatched
    exact PlacedMatch.ext samePosition (Option.some.inj otherMatched)

def keepPositions (kept : Nat → Bool) (definitions : List StepDefinition) : List StepDefinition :=
  (definitions.zipIdx.filter fun own => kept own.2).map Prod.fst

theorem bestMatch_eq (text : Text) (keyword : StepKeyword) (definitions : List StepDefinition) :
    bestMatch text keyword definitions =
      ((rankMatches text keyword definitions).head?.map RankedMatch.result).getD
        (fallbackMatch text) := by
  rw [bestMatch]
  cases rankMatches text keyword definitions <;> rfl

theorem isFallback_bestMatch_iff (text : Text) (keyword : StepKeyword)
    (definitions : List StepDefinition) :
    (bestMatch text keyword definitions).isFallback ↔
      rankMatches text keyword definitions = [] := by
  rw [bestMatch]
  cases ranked : rankMatches text keyword definitions with
  | nil => exact iff_of_true rfl rfl
  | cons first rest =>
      rw [rankMatches_eq] at ranked
      have member : first ∈ definitions.filterMap (usableMatch? text keyword) := by
        apply (List.mergeSort_perm _ _).mem_iff.1
        rw [ranked]
        exact List.mem_cons_self
      obtain ⟨definition, -, usable⟩ := List.mem_filterMap.1 member
      have matched := (usableMatch?_eq_some_iff.1 usable).2.1
      exact iff_of_false (Bool.eq_false_iff.1 (isFallback_eq_false matched)) (List.cons_ne_nil _ _)

/-- Definitions that a step cannot use do not take part in the ranking. -/
theorem rankMatches_filter_isUsable (text : Text) (keyword : StepKeyword)
    (definitions : List StepDefinition) :
    rankMatches text keyword (definitions.filter (StepDefinition.isUsable text keyword)) =
      rankMatches text keyword definitions := by
  rw [rankMatches_eq, rankMatches_eq, List.filterMap_filter]
  congr 2
  funext definition
  rw [← usableMatch?_isSome]
  cases usableMatch? text keyword definition <;> rfl

/-- The matches of a step have a ranking that lists each usable definition once, in the order of
the scores and then of the positions. The best match is the first of it or is made up. Definitions
that cannot be used have no influence, and leaving definitions out keeps the order of the others. -/
theorem ranking_complete_and_stable (text : Text) (keyword : StepKeyword)
    (definitions : List StepDefinition) :
    ∃ ranking, IsRanking text keyword definitions ranking ∧
      rankMatches text keyword definitions = ranking.map PlacedMatch.entry ∧
      bestMatch text keyword definitions =
        (ranking.head?.map fun best => best.entry.result).getD (fallbackMatch text) ∧
      ((bestMatch text keyword definitions).isFallback ↔ ranking = []) ∧
      (∀ others : List StepDefinition,
        others.filter (StepDefinition.isUsable text keyword) =
          definitions.filter (StepDefinition.isUsable text keyword) →
        rankMatches text keyword others = rankMatches text keyword definitions ∧
          bestMatch text keyword others = bestMatch text keyword definitions) ∧
      ∀ kept, rankMatches text keyword (keepPositions kept definitions) =
        (ranking.filter fun placed => kept placed.position).map PlacedMatch.entry := by
  have isRanking := isRanking_placedRanking text keyword definitions
  have entries := map_entry_placedRanking text keyword definitions.zipIdx
  rw [List.zipIdx_map_fst] at entries
  refine ⟨_, isRanking, entries.symm, ?_, ?_, ?_, ?_⟩
  · rw [bestMatch_eq, ← entries, List.head?_map, Option.map_map]
    rfl
  · rw [isFallback_bestMatch_iff, ← entries, List.map_eq_nil_iff]
  · intro others sameUsable
    have same : rankMatches text keyword others = rankMatches text keyword definitions := by
      rw [← rankMatches_filter_isUsable, sameUsable, rankMatches_filter_isUsable]
    exact ⟨same, by rw [bestMatch_eq, same, ← bestMatch_eq]⟩
  · intro kept
    rw [← placedRanking_filter kept (pairwise_zipIdx definitions), map_entry_placedRanking]
    rfl

end StepGrammar
