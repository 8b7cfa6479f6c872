import StepGrammar.Proofs.Text.Stretch

/-!
Contract: the positions of a text at which a scan asks its recogniser.

A scan runs through a text as a machine runs through its states: it passes one character where
nothing is found, and all the characters of a construct where one is found. `IsAsked` lists the
positions that it comes to, so what holds at every position is shown for the start and for the two
steps. `exists_isAsked_of_scan` gives the position of each construct of the scan, and
`isAsked_or_covered` says that any other position lies inside a construct.
-/

namespace StepGrammar

variable {α : Type}

/-- Whether the scan of a text comes to the position between the two parts of the text. -/
inductive IsAsked (recognise : Recogniser α) (text : Text) : Text → Text → Prop
  | start : IsAsked recognise text [] text
  | passed {front rest : Text} {character : Char}
      (asked : IsAsked recognise text front (character :: rest))
      (nothing : recognise front.getLast? (character :: rest) = none) :
      IsAsked recognise text (front ++ [character]) rest
  | covered {front stretch rest : Text} {found : Found α}
      (asked : IsAsked recognise text front (stretch ++ rest))
      (recognised : recognise front.getLast? (stretch ++ rest) = some found)
      (length : found.length = stretch.length) : IsAsked recognise text (front ++ stretch) rest

/-- Whether every construct that a recogniser finds covers at least one character and no more than
there are. -/
def Recogniser.Advances (recognise : Recogniser α) : Prop :=
  ∀ previous text found, recognise previous text = some found →
    0 < found.length ∧ found.length ≤ text.length

theorem IsAsked.split {recognise : Recogniser α} {text front rest : Text}
    (asked : IsAsked recognise text front rest) : text = front ++ rest := by
  induction asked with
  | start => rfl
  | passed _ _ inductionHypothesis => rw [inductionHypothesis, List.append_assoc]; rfl
  | covered _ _ _ inductionHypothesis => rw [inductionHypothesis, List.append_assoc]

/-! ## One step of a scan -/

section Step

variable {recognise : Recogniser α} {front rest : Text}

theorem scanFrom_passed {character : Char}
    (nothing : recognise front.getLast? (character :: rest) = none) :
    scanFrom recognise front.getLast? 0 (character :: rest) =
      Span.cons character (scanFrom recognise (front ++ [character]).getLast? 0 rest) := by
  rw [scanFrom, nothing, List.getLast?_concat]

theorem scanFrom_found {stretch : Text} {found : Found α} (nonempty : stretch ≠ [])
    (recognised : recognise front.getLast? (stretch ++ rest) = some found)
    (length : found.length = stretch.length) :
    scanFrom recognise front.getLast? 0 (stretch ++ rest) =
      .construct found.value :: scanFrom recognise (front ++ stretch).getLast? 0 rest := by
  cases stretch with
  | nil => exact absurd rfl nonempty
  | cons character inner =>
      rw [List.cons_append] at recognised ⊢
      have remaining : found.length - 1 = inner.length := by simp [length]
      have last : (front ++ character :: inner).getLast? =
          inner.getLast?.or (some character) := by
        rw [List.getLast?_append, getLast?_cons_or]
      rw [scanFrom, recognised, last, ← scanFrom_covered (some character), ← remaining]

/-- What is found at a position is the front part of the text from there on. -/
theorem Recogniser.Advances.exists_stretch (advances : recognise.Advances) {previous : Option Char}
    {found : Found α} (recognised : recognise previous rest = some found) :
    ∃ stretch behind, rest = stretch ++ behind ∧ stretch ≠ [] ∧ found.length = stretch.length := by
  obtain ⟨positive, bounded⟩ := advances _ _ _ recognised
  refine ⟨rest.take found.length, rest.drop found.length, (List.take_append_drop _ _).symm, ?_, ?_⟩
  · apply List.ne_nil_of_length_pos
    rw [List.length_take]
    omega
  · simp [bounded]

end Step

/-! ## From positions to constructs -/

section Positions

variable {recognise : Recogniser α} {text front rest : Text}

theorem Span.construct_mem_cons {value : α} {character : Char} {spans : List (Span α)} :
    .construct value ∈ Span.cons character spans ↔ .construct value ∈ spans := by
  cases spans with
  | nil => simp [Span.cons]
  | cons first others => cases first <;> simp [Span.cons]

/-- What is scanned from a position on is a part of the whole scan. -/
theorem IsAsked.construct_mem (asked : IsAsked recognise text front rest)
    (advances : recognise.Advances) {value : α}
    (member : .construct value ∈ scanFrom recognise front.getLast? 0 rest) :
    .construct value ∈ scan recognise text := by
  induction asked with
  | start => exact member
  | passed _ nothing inductionHypothesis =>
      apply inductionHypothesis
      rw [scanFrom_passed nothing]
      exact Span.construct_mem_cons.2 member
  | @covered front stretch rest found _ recognised length inductionHypothesis =>
      have positive := (advances _ _ _ recognised).1
      have nonempty : stretch ≠ [] := List.ne_nil_of_length_pos (length ▸ positive)
      apply inductionHypothesis
      rw [scanFrom_found nonempty recognised length]
      exact List.mem_cons_of_mem _ member

theorem IsAsked.found_mem (asked : IsAsked recognise text front rest)
    (advances : recognise.Advances) {found : Found α}
    (recognised : recognise front.getLast? rest = some found) :
    .construct found.value ∈ scan recognise text := by
  apply asked.construct_mem advances
  obtain ⟨stretch, behind, rfl, nonempty, length⟩ := advances.exists_stretch recognised
  rw [scanFrom_found nonempty recognised length]
  exact List.mem_cons_self

/-- A scan comes to a position of the text or covers it with a construct that begins before it. -/
theorem isAsked_or_covered (advances : recognise.Advances) (split : text = front ++ rest) :
    IsAsked recognise text front rest ∨
      ∃ earlier middle found, front = earlier ++ middle ∧ middle ≠ [] ∧
        IsAsked recognise text earlier (middle ++ rest) ∧
        recognise earlier.getLast? (middle ++ rest) = some found ∧
        middle.length < found.length := by
  induction front using List.reverseRecOn generalizing rest with
  | nil =>
      obtain rfl : text = rest := split
      exact Or.inl .start
  | append_singleton front character inductionHypothesis =>
      rw [List.append_assoc, List.singleton_append] at split
      rcases inductionHypothesis split with asked | ⟨earlier, middle, found, rfl, nonempty, asked,
        recognised, longer⟩
      · cases recognised : recognise front.getLast? (character :: rest) with
        | none => exact Or.inl (asked.passed recognised)
        | some found =>
            have positive := (advances _ _ _ recognised).1
            by_cases single : found.length = 1
            · have asked : IsAsked recognise text front ([character] ++ rest) := asked
              exact Or.inl (asked.covered recognised single)
            · refine Or.inr ⟨front, [character], found, rfl, List.cons_ne_nil _ _, asked,
                recognised, ?_⟩
              rw [List.length_singleton]
              omega
      · -- The construct that covers the character ends behind it or reaches further.
        have same : middle ++ character :: rest = (middle ++ [character]) ++ rest := by simp
        rw [same] at asked recognised
        by_cases ends : found.length = (middle ++ [character]).length
        · rw [List.append_assoc]
          exact Or.inl (asked.covered recognised ends)
        · refine Or.inr ⟨earlier, middle ++ [character], found, List.append_assoc _ _ _, by simp,
            asked, recognised, ?_⟩
          rw [List.length_append, List.length_singleton] at ends ⊢
          omega

/-- What is found at a construct of the scan from a position on. -/
theorem IsAsked.exists_of_scanFrom (asked : IsAsked recognise text front rest)
    (advances : recognise.Advances) {raw : α → Text} (covers : recognise.Covers raw)
    {before after : List (Span α)} {value : α}
    (split : scanFrom recognise front.getLast? 0 rest = before ++ .construct value :: after) :
    ∃ behind found,
      IsAsked recognise text (front ++ before.flatMap (Span.covered raw)) behind ∧
      recognise (front ++ before.flatMap (Span.covered raw)).getLast? behind = some found ∧
      found.value = value := by
  induction size : rest.length using Nat.strongRecOn generalizing front rest before with
  | ind bound inductionHypothesis =>
  cases rest with
  | nil => simp [scanFrom] at split
  | cons character rest =>
      cases recognised : recognise front.getLast? (character :: rest) with
      | none =>
          rw [scanFrom_passed recognised] at split
          have shorter : rest.length < bound := by
            rw [← size, List.length_cons]
            exact Nat.lt_succ_self _
          -- The plain character is the first of the plain span with which the scan begins.
          obtain ⟨inner, others, joined, own⟩ := Span.exists_cons_eq character
            (scanFrom recognise (front ++ [character]).getLast? 0 rest)
          rw [joined] at split
          cases before with
          | nil => simp at split
          | cons first before =>
              rw [List.cons_append, List.cons.injEq] at split
              obtain ⟨rfl, rfl⟩ := split
              rcases own with ⟨rfl, scanned⟩ | scanned
              · simpa [Span.covered] using
                  inductionHypothesis _ shorter (asked.passed recognised) scanned.symm rfl
              · rw [← List.cons_append] at scanned
                simpa [Span.covered] using
                  inductionHypothesis _ shorter (asked.passed recognised) scanned rfl
      | some found =>
          obtain ⟨stretch, behind, same, nonempty, length⟩ := advances.exists_stretch recognised
          rw [same] at asked recognised split
          rw [scanFrom_found nonempty recognised length] at split
          cases before with
          | nil =>
              rw [List.nil_append, List.cons.injEq, Span.construct.injEq] at split
              exact ⟨stretch ++ behind, found, by simpa using asked, by simpa using recognised,
                split.1⟩
          | cons first before =>
              rw [List.cons_append, List.cons.injEq] at split
              obtain ⟨rfl, split⟩ := split
              have shorter : behind.length < bound := by
                have positive := List.length_pos_of_ne_nil nonempty
                rw [← size, same, List.length_append]
                omega
              have own : raw found.value = stretch := by
                rw [(covers _ _ _ recognised).2, length, List.take_left]
              simpa [Span.covered, own] using
                inductionHypothesis _ shorter (asked.covered recognised length) split rfl

/-- A construct of a scan was found at the position behind the spans before it. -/
theorem exists_isAsked_of_scan (advances : recognise.Advances) {raw : α → Text}
    (covers : recognise.Covers raw) {before after : List (Span α)} {value : α}
    (split : scan recognise text = before ++ .construct value :: after) :
    ∃ behind found, IsAsked recognise text (before.flatMap (Span.covered raw)) behind ∧
      recognise (before.flatMap (Span.covered raw)).getLast? behind = some found ∧
      found.value = value :=
  IsAsked.start.exists_of_scanFrom advances covers split

/-! ## From one recogniser to another -/

/-- A recogniser that finds the same as another one, up to a change of the values, at all positions
that the scan comes to. -/
theorem IsAsked.scanFrom_map {β : Type} {change : α → β} {other : Recogniser β}
    (asked : IsAsked recognise text front rest) (advances : recognise.Advances)
    (agrees : ∀ front rest, IsAsked recognise text front rest →
      other front.getLast? rest = (recognise front.getLast? rest).map (Found.map change)) :
    scanFrom other front.getLast? 0 rest =
      (scanFrom recognise front.getLast? 0 rest).map (Span.map change) := by
  induction size : rest.length using Nat.strongRecOn generalizing front rest with
  | ind bound inductionHypothesis =>
  have same := agrees front rest asked
  cases rest with
  | nil => rfl
  | cons character rest =>
      cases recognised : recognise front.getLast? (character :: rest) with
      | none =>
          rw [recognised, Option.map_none] at same
          rw [scanFrom_passed recognised, scanFrom_passed same, Span.map_cons]
          have shorter : rest.length < bound := by
            rw [← size, List.length_cons]
            exact Nat.lt_succ_self _
          rw [inductionHypothesis _ shorter (asked.passed recognised) rfl]
      | some found =>
          rw [recognised, Option.map_some] at same
          obtain ⟨stretch, behind, split, nonempty, length⟩ := advances.exists_stretch recognised
          rw [split] at asked recognised same ⊢
          rw [scanFrom_found nonempty recognised length,
            scanFrom_found nonempty same length]
          have shorter : behind.length < bound := by
            have positive := List.length_pos_of_ne_nil nonempty
            rw [← size, split, List.length_append]
            omega
          rw [inductionHypothesis _ shorter (asked.covered recognised length) rfl]
          rfl

theorem scan_map {β : Type} {change : α → β} {other : Recogniser β}
    (advances : recognise.Advances)
    (agrees : ∀ front rest, IsAsked recognise text front rest →
      other front.getLast? rest = (recognise front.getLast? rest).map (Found.map change)) :
    scan other text = (scan recognise text).map (Span.map change) :=
  IsAsked.start.scanFrom_map advances agrees

end Positions

end StepGrammar
