import Mathlib.Data.List.Basic
import StepGrammar.Text.Blank
import StepGrammar.Text.Word

/-!
Contract: blanks end a stretch of other characters.

A stretch without blanks in front of a blank, or of the end of the text, is determined by the text.
Decimal digits are no blanks.
-/

namespace StepGrammar

theorem CodePoints.exists_range_of_contains {ranges : CodePoints} {code : Nat}
    (contained : ranges.contains code) : ∃ range ∈ ranges, range.1 ≤ code ∧ code ≤ range.2 := by
  induction ranges with
  | nil => exact absurd contained Bool.false_ne_true
  | cons range rest inductionHypothesis =>
      obtain ⟨first, last⟩ := range
      rw [CodePoints.contains] at contained
      split at contained
      · exact absurd contained Bool.false_ne_true
      · split at contained
        · exact ⟨(first, last), by simp, by omega, by omega⟩
        · obtain ⟨range, member, bounds⟩ := inductionHypothesis contained
          exact ⟨range, List.mem_cons_of_mem _ member, bounds⟩

theorem isBlank_of_isDigit {character : Char} (digit : isDigit character) :
    isBlank character = false := by
  apply Bool.eq_false_iff.2
  intro blank
  obtain ⟨left, leftMember, leftBounds⟩ := CodePoints.exists_range_of_contains digit
  obtain ⟨right, rightMember, rightBounds⟩ := CodePoints.exists_range_of_contains blank
  have disjoint : ∀ left ∈ CodePoints.decimalDigit, ∀ right ∈ CodePoints.whiteSpace,
      left.2 < right.1 ∨ right.2 < left.1 := by decide
  rcases disjoint left leftMember right rightMember with before | behind
  · omega
  · omega

def Text.isBlankFree (text : Text) : Bool := text.all fun character => !isBlank character

/-- Whether a text is empty or begins with a blank. -/
def Text.startsBlank (text : Text) : Bool := text.head?.all isBlank

theorem Text.isBlankFree_append (front back : Text) :
    Text.isBlankFree (front ++ back) = (Text.isBlankFree front && Text.isBlankFree back) :=
  List.all_append

theorem Text.dropWhile_of_startsBlank {text : Text} (starts : Text.startsBlank text) :
    text.dropWhile (fun character => !isBlank character) = text := by
  cases text with
  | nil => rfl
  | cons character rest =>
      have blank : isBlank character := by simpa [Text.startsBlank] using starts
      simp [blank]

/-- What follows a stretch without blanks begins at the first blank of the text. -/
theorem Text.eq_of_append_of_isBlankFree {piece rest front back : Text}
    (same : piece ++ rest = front ++ back) (pieceFree : Text.isBlankFree piece)
    (frontFree : Text.isBlankFree front) (restStarts : Text.startsBlank rest)
    (backStarts : Text.startsBlank back) : back = rest := by
  have fromPiece : (piece ++ rest).dropWhile (fun character => !isBlank character) = rest := by
    rw [List.dropWhile_append_of_pos (List.all_eq_true.1 pieceFree),
      Text.dropWhile_of_startsBlank restStarts]
  have fromFront : (front ++ back).dropWhile (fun character => !isBlank character) = back := by
    rw [List.dropWhile_append_of_pos (List.all_eq_true.1 frontFree),
      Text.dropWhile_of_startsBlank backStarts]
  rw [← fromPiece, same, fromFront]

end StepGrammar
