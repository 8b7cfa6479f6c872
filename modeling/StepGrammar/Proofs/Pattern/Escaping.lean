import StepGrammar.Proofs.Pattern.Written

/-!
Contract: texts in which every character that can be escaped is escaped.

Dropping the escapes gives the text back. With its escapes a text ends as it does without them, no
blank comes to stand at its ends, and each of its parentheses has a backslash directly before it, so
that a group runs over it.
-/

namespace StepGrammar

/-! ## Escaping and dropping escapes -/

theorem head?_escapeAll (text : Text) : (escapeAll text).head?.any isEscapable = false := by
  cases text with
  | nil => rfl
  | cons character rest =>
      rw [escapeAll]
      split
      · exact rfl
      · rename_i plain
        exact eq_false_of_ne_true plain

/-- A character is kept unless it is the backslash of an escape. -/
theorem unescape_cons {character : Char} {text : Text}
    (kept : character ≠ '\\' ∨ text.head?.any isEscapable = false) :
    unescape (character :: text) = character :: unescape text := by
  cases text with
  | nil => rfl
  | cons second rest =>
      have noEscape : (character == '\\' && isEscapable second) = false := by
        rcases kept with different | plain
        · simp [different]
        · simpa using fun _ => plain
      rw [unescape, noEscape]
      rfl

/-- Escapes are dropped in two texts apart, unless one reaches from the first into the second. -/
theorem unescape_append {front behind : Text}
    (kept : front.getLast? ≠ some '\\' ∨ behind.head?.any isEscapable = false) :
    unescape (front ++ behind) = unescape front ++ unescape behind := by
  fun_induction unescape front with
  | case1 => rfl
  | case2 character =>
      exact unescape_cons (kept.imp_left fun different same => different (congrArg some same))
  | case3 first second rest escape inductionHypothesis =>
      have keptRest : rest.getLast? ≠ some '\\' ∨ behind.head?.any isEscapable = false := by
        refine kept.imp_left fun different last => different ?_
        rw [List.getLast?_cons_cons, List.getLast?_cons, last, Option.getD_some]
      rw [List.cons_append, List.cons_append, unescape, if_pos escape, inductionHypothesis keptRest]
      rfl
  | case4 first second rest noEscape inductionHypothesis =>
      rw [List.getLast?_cons_cons] at kept
      rw [List.cons_append, List.cons_append, unescape, if_neg noEscape, ← List.cons_append,
        inductionHypothesis kept]
      rfl

theorem unescape_sublist (text : Text) : (unescape text).Sublist text := by
  fun_induction unescape text with
  | case1 => exact .slnil
  | case2 character => exact .refl _
  | case3 first second rest escape inductionHypothesis =>
      exact (inductionHypothesis.cons_cons second).cons first
  | case4 first second rest noEscape inductionHypothesis =>
      exact inductionHypothesis.cons_cons first

/-- Dropping the escapes gives the text back. -/
theorem unescape_escapeAll (text : Text) : unescape (escapeAll text) = text := by
  induction text with
  | nil => rfl
  | cons character rest inductionHypothesis =>
      rw [escapeAll]
      split
      · rename_i escapable
        simp [unescape, escapable, inductionHypothesis]
      · rw [unescape_cons (Or.inr (head?_escapeAll rest)), inductionHypothesis]

theorem getLast?_escapeAll (text : Text) : (escapeAll text).getLast? = text.getLast? := by
  induction text with
  | nil => rfl
  | cons character rest inductionHypothesis =>
      rw [escapeAll]
      split <;> simp [List.getLast?_cons, inductionHypothesis]

theorem isTrimmed_escapeAll {text : Text} (trimmed : Text.isTrimmed text) :
    Text.isTrimmed (escapeAll text) := by
  rw [Text.isTrimmed, getLast?_escapeAll]
  cases text with
  | nil => rfl
  | cons character rest =>
      rw [Text.isTrimmed, Bool.and_eq_true] at trimmed
      rw [escapeAll, trimmed.2, Bool.and_true]
      split
      · have visible : isBlank '\\' = false := by decide
        simp [visible]
      · exact trimmed.1

theorem mem_escapeAll {text : Text} {character : Char} (member : character ∈ escapeAll text) :
    character = '\\' ∨ character ∈ text := by
  induction text with
  | nil => contradiction
  | cons first rest inductionHypothesis =>
      rw [escapeAll] at member
      split at member <;> grind

/-! ## Escaped texts inside a group -/

theorem isEscapable_of_isParenthesis {character : Char} (parenthesis : isParenthesis character) :
    isEscapable character := by
  rw [isParenthesis, Bool.or_eq_true, beq_iff_eq, beq_iff_eq] at parenthesis
  rcases parenthesis with rfl | rfl <;> decide

/-- An escaped text can stand anywhere in a group. -/
theorem escapesParentheses_escapeAll (previous : Option Char) (text behind : Text) :
    escapesParentheses previous (escapeAll text ++ behind) =
      escapesParentheses (text.getLast?.or previous) behind := by
  induction text generalizing previous with
  | nil => rfl
  | cons character rest inductionHypothesis =>
      have notParenthesis : isParenthesis '\\' = false := by decide
      rw [escapeAll, getLast?_cons_or, ← inductionHypothesis]
      split
      · rw [List.cons_append, List.cons_append, escapesParentheses, escapesParentheses,
          notParenthesis]
        simp
      · rename_i plain
        have visible : isParenthesis character = false :=
          eq_false_of_ne_true (mt isEscapable_of_isParenthesis plain)
        rw [List.cons_append, escapesParentheses, visible]
        rfl

/-- The values of a choice, escaped and with a bar between neighbours. -/
def choiceContent (values : List Text) : Text := Text.join ['|'] (values.map escapeAll)

/-- Escaped values stand in a group, unless the last ends in a backslash. -/
theorem escapesParentheses_choiceContent {values : List Text} (nonempty : values ≠ [])
    (filled : ∀ value ∈ values, value ≠ [])
    (closes : ∀ value ∈ values.getLast?, value.getLast? ≠ some '\\') (previous : Option Char) :
    escapesParentheses previous (choiceContent values) := by
  induction values generalizing previous with
  | nil => contradiction
  | cons first rest inductionHypothesis =>
      cases rest with
      | nil =>
          have last := closes first rfl
          have single : choiceContent [first] = escapeAll first ++ [] := by
            simp [choiceContent, Text.join]
          rw [single, escapesParentheses_escapeAll, escapesParentheses, bne_iff_ne]
          cases ends : first.getLast? with
          | none =>
              exact absurd (List.getLast?_eq_none_iff.1 ends) (filled first List.mem_cons_self)
          | some character =>
              rw [ends] at last
              exact last
      | cons second rest =>
          have bar : isParenthesis '|' = false := by decide
          have split : choiceContent (first :: second :: rest) =
              escapeAll first ++ '|' :: choiceContent (second :: rest) := by
            simp [choiceContent, Text.join, List.intercalate_cons_cons]
          rw [split, escapesParentheses_escapeAll, escapesParentheses, bar]
          exact inductionHypothesis (List.cons_ne_nil _ _)
            (fun value member => filled value (List.mem_cons_of_mem _ member)) closes _

/-- The values of a choice are read back from its content. -/
theorem enumValues_choiceContent {values : List Text} (nonempty : values ≠ [])
    (filled : ∀ value ∈ values, value ≠ []) (trimmed : ∀ value ∈ values, Text.isTrimmed value)
    (barFree : ∀ value ∈ values, '|' ∉ value) : enumValues (choiceContent values) = values := by
  have escapedFree : ∀ item ∈ values.map escapeAll, '|' ∉ item := by
    intro item member bar
    obtain ⟨value, valueMember, rfl⟩ := List.mem_map.1 member
    rcases mem_escapeAll bar with backslash | inside
    · exact absurd backslash (by decide)
    · exact barFree value valueMember inside
  have escapedTrimmed : ∀ item ∈ values.map escapeAll, Text.isTrimmed item := by
    intro item member
    obtain ⟨value, valueMember, rfl⟩ := List.mem_map.1 member
    exact isTrimmed_escapeAll (trimmed value valueMember)
  have split : ((choiceContent values).splitOn '|').map Text.trim = values.map escapeAll :=
    Text.map_trim_splitOn_join (by decide) rfl (by simpa using nonempty) escapedFree escapedTrimmed
  have listed : ((choiceContent values).splitOn '|').map (fun value => unescape (Text.trim value)) =
      values := by
    have composed := congrArg (List.map unescape) split
    rw [List.map_map, List.map_map] at composed
    calc
      _ = values.map (unescape ∘ escapeAll) := composed
      _ = values.map id := List.map_congr_left fun value _ => unescape_escapeAll value
      _ = values := List.map_id values
  rw [enumValues, listed]
  apply List.filter_eq_self.2
  intro value member
  simpa using filled value member

end StepGrammar
