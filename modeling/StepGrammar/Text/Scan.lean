import StepGrammar.Text.Basic

/-!
Contract: one pass over a text that finds constructs and leaves the characters between them.

A recogniser is asked at every position that no earlier construct covers. Characters where it
finds nothing are gathered into the longest plain stretches, so no two plain spans are neighbours.
`flatMap_covered_scan` says that the spans, one after the other, cover the text.
-/

namespace StepGrammar

/-- A construct found at a position and the number of characters it covers. -/
structure Found (α : Type) where
  value : α
  length : Nat
deriving Repr

def Found.map {α β : Type} (change : α → β) (found : Found α) : Found β :=
  ⟨change found.value, found.length⟩

/-- Looks for a construct at the start of a text, given the character before it. -/
abbrev Recogniser (α : Type) := Option Char → Text → Option (Found α)

/-- A stretch of a text: plain characters or a construct. -/
inductive Span (α : Type) where
  | plain (text : Text)
  | construct (value : α)
deriving DecidableEq, Repr

namespace Span

variable {α : Type}

def cons (character : Char) : List (Span α) → List (Span α)
  | .plain text :: rest => .plain (character :: text) :: rest
  | spans => .plain [character] :: spans

end Span

/-- The spans of a text of which the first `covered` characters belong to a construct found
earlier. -/
def scanFrom {α : Type} (recognise : Recogniser α) (previous : Option Char) :
    (covered : Nat) → Text → List (Span α)
  | _, [] => []
  | covered + 1, character :: rest => scanFrom recognise (some character) covered rest
  | 0, character :: rest =>
    match recognise previous (character :: rest) with
    | some found =>
      .construct found.value :: scanFrom recognise (some character) (found.length - 1) rest
    | none => Span.cons character (scanFrom recognise (some character) 0 rest)

def scan {α : Type} (recognise : Recogniser α) (text : Text) : List (Span α) :=
  scanFrom recognise none 0 text

/-! ## The spans cover the text -/

def Span.covered {α : Type} (raw : α → Text) : Span α → Text
  | .plain text => text
  | .construct value => raw value

/-- Every construct that a recogniser finds covers at least one character, and its raw text is
what it covers. -/
def Recogniser.Covers {α : Type} (recognise : Recogniser α) (raw : α → Text) : Prop :=
  ∀ previous text found, recognise previous text = some found →
    0 < found.length ∧ raw found.value = text.take found.length

theorem Span.flatMap_covered_cons {α : Type} (raw : α → Text) (character : Char)
    (spans : List (Span α)) :
    (Span.cons character spans).flatMap (Span.covered raw) =
      character :: spans.flatMap (Span.covered raw) := by
  cases spans with
  | nil => rfl
  | cons first rest => cases first <;> simp [Span.cons, Span.covered]

theorem flatMap_covered_scanFrom {α : Type} {recognise : Recogniser α} {raw : α → Text}
    (covers : recognise.Covers raw) (previous : Option Char) (covered : Nat) (text : Text) :
    (scanFrom recognise previous covered text).flatMap (Span.covered raw) = text.drop covered := by
  induction text generalizing previous covered with
  | nil => cases covered <;> simp [scanFrom]
  | cons character rest inductionHypothesis =>
      cases covered with
      | succ covered => simp [scanFrom, inductionHypothesis]
      | zero =>
          simp only [scanFrom, List.drop_zero]
          split
          · rename_i found recognised
            have ⟨positive, rawEq⟩ := covers _ _ _ recognised
            obtain ⟨length, lengthEq⟩ : ∃ length, found.length = length + 1 :=
              ⟨found.length - 1, by omega⟩
            simp only [List.flatMap_cons, Span.covered, rawEq, lengthEq, inductionHypothesis]
            simp
          · simp [Span.flatMap_covered_cons, inductionHypothesis]

/-- The stretches of the spans of a text, one after the other, are the text. -/
theorem flatMap_covered_scan {α : Type} {recognise : Recogniser α} {raw : α → Text}
    (covers : recognise.Covers raw) (text : Text) :
    (scan recognise text).flatMap (Span.covered raw) = text :=
  flatMap_covered_scanFrom covers none 0 text

end StepGrammar
