import Mathlib.Data.List.TakeWhile
import StepGrammar.Text.Blank

/-!
Contract: trimming takes away the blanks around a text and nothing else.

A text is trimmed when no blank stands at either end. Blanks put around a trimmed text are taken
away again, and what is taken away from any text are blanks.
-/

namespace StepGrammar

namespace Text

def isTrimmed (text : Text) : Bool := !text.head?.any isBlank && !text.getLast?.any isBlank

theorem exists_trimStart (text : Text) :
    ∃ blanks : Text, text = blanks ++ trimStart text ∧ blanks.all isBlank :=
  ⟨text.takeWhile isBlank, List.takeWhile_append_dropWhile.symm, List.all_takeWhile⟩

theorem trimStart_append {blanks text : Text} (blank : blanks.all isBlank)
    (starts : ¬text.head?.any isBlank) : trimStart (blanks ++ text) = text := by
  rw [trimStart, List.dropWhile_append_of_pos (List.all_eq_true.1 blank)]
  cases text with
  | nil => rfl
  | cons character rest => exact List.dropWhile_cons_of_neg (by simpa using starts)

theorem trimEnd_eq_reverse (text : Text) : trimEnd text = (trimStart text.reverse).reverse := rfl

theorem exists_trimEnd (text : Text) :
    ∃ blanks : Text, text = trimEnd text ++ blanks ∧ blanks.all isBlank := by
  obtain ⟨blanks, split, blank⟩ := exists_trimStart text.reverse
  refine ⟨blanks.reverse, ?_, by simpa using blank⟩
  rw [trimEnd_eq_reverse, ← List.reverse_append, ← split, List.reverse_reverse]

theorem trimEnd_append {text blanks : Text} (blank : blanks.all isBlank)
    (ends : ¬text.getLast?.any isBlank) : trimEnd (text ++ blanks) = text := by
  have starts : ¬text.reverse.head?.any isBlank := by rwa [List.head?_reverse]
  rw [trimEnd_eq_reverse, List.reverse_append, trimStart_append (by simpa using blank) starts,
    List.reverse_reverse]

/-- Blanks before a trimmed text are trimmed away. -/
theorem trim_append {blanks text : Text} (blank : blanks.all isBlank) (trimmed : isTrimmed text) :
    trim (blanks ++ text) = text := by
  simp only [isTrimmed, Bool.and_eq_true, Bool.not_eq_true'] at trimmed
  have whole : trimEnd (text ++ []) = text := trimEnd_append rfl (by simp [trimmed.2])
  rw [trim, trimStart_append blank (by simp [trimmed.1]), ← List.append_nil text, whole,
    List.append_nil]

end Text

end StepGrammar
