import Mathlib.Data.List.Chain
import StepGrammar.Text.Scan

/-!
Contract: what every span of a scan satisfies.

A property of spans needs to be shown for nonempty plain text and for what the recogniser finds.
A construct that always reaches to the end of the text is the last span, and no two plain spans
are neighbours.
-/

namespace StepGrammar

variable {α : Type}

namespace Span

def isConstruct : Span α → Bool
  | .plain _ => false
  | .construct _ => true

theorem forall_mem_cons {P : Span α → Prop} (plain : ∀ text, text ≠ [] → P (.plain text))
    (character : Char) {spans : List (Span α)} (all : ∀ span ∈ spans, P span) :
    ∀ span ∈ cons character spans, P span := by
  cases spans with
  | nil => simpa [cons] using plain [character] (by simp)
  | cons first rest =>
      cases first with
      | plain text =>
          intro span member
          rcases List.mem_cons.1 member with rfl | later
          · exact plain _ (by simp)
          · exact all span (List.mem_cons_of_mem _ later)
      | construct value =>
          intro span member
          rcases List.mem_cons.1 member with rfl | later
          · exact plain _ (by simp)
          · exact all span later

end Span

/-- A property of all nonempty plain spans and of all constructs that a recogniser finds holds of
every span. -/
theorem forall_mem_scanFrom {recognise : Recogniser α} {P : Span α → Prop}
    (plain : ∀ text, text ≠ [] → P (.plain text))
    (construct : ∀ previous text found, recognise previous text = some found →
      P (.construct found.value))
    (previous : Option Char) (covered : Nat) (text : Text) :
    ∀ span ∈ scanFrom recognise previous covered text, P span := by
  induction text generalizing previous covered with
  | nil => cases covered <;> simp [scanFrom]
  | cons character rest inductionHypothesis =>
      cases covered with
      | succ covered => exact inductionHypothesis _ _
      | zero =>
          simp only [scanFrom]
          split
          · rename_i found recognised
            intro span member
            rcases List.mem_cons.1 member with rfl | later
            · exact construct _ _ _ recognised
            · exact inductionHypothesis _ _ span later
          · exact Span.forall_mem_cons plain character (inductionHypothesis _ _)

/-- Nothing is scanned inside a construct that reaches to the end of the text. -/
theorem scanFrom_of_length_le {recognise : Recogniser α} (previous : Option Char) {covered : Nat}
    {text : Text} (reaches : text.length ≤ covered) :
    scanFrom recognise previous covered text = [] := by
  induction text generalizing previous covered with
  | nil => cases covered <;> rfl
  | cons character rest inductionHypothesis =>
      cases covered with
      | zero => simp at reaches
      | succ covered => exact inductionHypothesis _ (by simpa using reaches)

/-- The character before a position, carried over one more character. -/
theorem getLast?_cons_or (first : Char) (rest : Text) (previous : Option Char) :
    (first :: rest).getLast?.or previous = rest.getLast?.or (some first) := by
  rw [List.getLast?_cons]
  cases rest.getLast? <;> rfl

/-- Inside a construct the scan goes on after the characters that the construct covers. -/
theorem scanFrom_covered {recognise : Recogniser α} (previous : Option Char)
    (front rest : Text) :
    scanFrom recognise previous front.length (front ++ rest) =
      scanFrom recognise (front.getLast?.or previous) 0 rest := by
  induction front generalizing previous with
  | nil => rfl
  | cons character front inductionHypothesis =>
      rw [List.length_cons, List.cons_append, scanFrom, inductionHypothesis, getLast?_cons_or]

/-- A construct that always reaches to the end of the text stands nowhere but at the end. -/
theorem not_mem_dropLast_scanFrom {recognise : Recogniser α} {P : α → Prop}
    (reaches : ∀ previous text found, recognise previous text = some found → P found.value →
      text.length ≤ found.length)
    (previous : Option Char) (covered : Nat) (text : Text) {value : α} (holds : P value) :
    .construct value ∉ (scanFrom recognise previous covered text).dropLast := by
  induction text generalizing previous covered with
  | nil => cases covered <;> simp [scanFrom]
  | cons character rest inductionHypothesis =>
      cases covered with
      | succ covered => exact inductionHypothesis _ _
      | zero =>
          simp only [scanFrom]
          split
          · rename_i found recognised
            intro member
            cases tail : scanFrom recognise (some character) (found.length - 1) rest with
            | nil => simp [tail] at member
            | cons next others =>
                rw [tail, List.dropLast_cons_of_ne_nil (by simp)] at member
                rcases List.mem_cons.1 member with same | later
                · -- A construct with the property leaves nothing for a second span.
                  have whole := reaches _ _ _ recognised (Span.construct.inj same ▸ holds)
                  rw [scanFrom_of_length_le _ (by simp at whole; omega)] at tail
                  exact List.cons_ne_nil _ _ tail.symm
                · exact inductionHypothesis (some character) (found.length - 1) (tail ▸ later)
          · have tailFree := inductionHypothesis (some character) 0
            cases tail : scanFrom recognise (some character) 0 rest with
            | nil => simp [Span.cons]
            | cons next others =>
                rw [tail] at tailFree
                cases next with
                | construct other => simpa [Span.cons] using tailFree
                | plain plainText =>
                    cases others with
                    | nil => simp [Span.cons]
                    | cons third others => simpa [Span.cons] using tailFree

theorem Span.isChain_cons (character : Char) {spans : List (Span α)}
    (chain : spans.IsChain fun first second => first.isConstruct ∨ second.isConstruct) :
    (Span.cons character spans).IsChain fun first second =>
      first.isConstruct ∨ second.isConstruct := by
  cases spans with
  | nil => simp [Span.cons]
  | cons first rest =>
      cases first with
      | construct value => simpa [Span.cons, Span.isConstruct] using chain
      | plain text =>
          cases rest with
          | nil => simp [Span.cons]
          | cons second rest => simpa [Span.cons, Span.isConstruct] using chain

/-- Of two neighbours at least one is a construct. -/
theorem isChain_scanFrom (recognise : Recogniser α) (previous : Option Char) (covered : Nat)
    (text : Text) :
    (scanFrom recognise previous covered text).IsChain fun first second =>
      first.isConstruct ∨ second.isConstruct := by
  induction text generalizing previous covered with
  | nil => cases covered <;> simp [scanFrom]
  | cons character rest inductionHypothesis =>
      cases covered with
      | succ covered => exact inductionHypothesis _ _
      | zero =>
          simp only [scanFrom]
          split
          · rename_i found recognised
            refine List.IsChain.cons (inductionHypothesis _ _) fun next _ => ?_
            simp [Span.isConstruct]
          · exact Span.isChain_cons character (inductionHypothesis _ _)

/-- A character joins the plain stretch that follows it or is a stretch of its own. -/
theorem Span.exists_cons_eq (character : Char) (spans : List (Span α)) :
    ∃ inner others, Span.cons character spans = .plain (character :: inner) :: others ∧
      ((inner = [] ∧ others = spans) ∨ spans = .plain inner :: others) := by
  cases spans with
  | nil => exact ⟨[], [], rfl, Or.inl ⟨rfl, rfl⟩⟩
  | cons first rest =>
      cases first with
      | construct value => exact ⟨[], .construct value :: rest, rfl, Or.inl ⟨rfl, rfl⟩⟩
      | plain inner => exact ⟨inner, rest, rfl, Or.inr rfl⟩

theorem prefix_of_scanFrom_eq_plain {recognise : Recogniser α} {previous : Option Char}
    {text literal : Text} {spans : List (Span α)}
    (scanned : scanFrom recognise previous 0 text = .plain literal :: spans) :
    literal <+: text := by
  induction text generalizing previous literal spans with
  | nil => simp [scanFrom] at scanned
  | cons character rest inductionHypothesis =>
      simp only [scanFrom] at scanned
      split at scanned
      · simp at scanned
      · obtain ⟨inner, others, joined, own | tail⟩ := Span.exists_cons_eq character
          (scanFrom recognise (some character) 0 rest)
        · rw [joined, own.1, List.cons.injEq, Span.plain.injEq] at scanned
          rw [← scanned.1]
          exact ⟨rest, rfl⟩
        · rw [joined, List.cons.injEq, Span.plain.injEq] at scanned
          rw [← scanned.1, List.cons_prefix_cons]
          exact ⟨rfl, inductionHypothesis tail⟩

/-- The recogniser finds nothing at any character of a plain stretch. -/
theorem exists_recognise_eq_none {recognise : Recogniser α} {previous : Option Char}
    {covered : Nat} {text literal suffix : Text}
    (member : .plain literal ∈ scanFrom recognise previous covered text)
    (isSuffix : suffix <:+ literal) (nonempty : suffix ≠ []) :
    ∃ before rest, recognise before (suffix ++ rest) = none := by
  induction text generalizing previous covered literal with
  | nil => cases covered <;> simp [scanFrom] at member
  | cons character rest inductionHypothesis =>
      cases covered with
      | succ covered => exact inductionHypothesis member isSuffix
      | zero =>
          simp only [scanFrom] at member
          split at member
          · simp only [List.mem_cons, reduceCtorEq, false_or] at member
            exact inductionHypothesis member isSuffix
          · rename_i nothing
            obtain ⟨inner, others, joined, split⟩ := Span.exists_cons_eq character
              (scanFrom recognise (some character) 0 rest)
            have innerPrefix : inner <+: rest := by
              rcases split with own | tail
              · rw [own.1]
                exact List.nil_prefix
              · exact prefix_of_scanFrom_eq_plain tail
            rw [joined] at member
            rcases List.mem_cons.1 member with first | later
            · rw [Span.plain.inj first, List.suffix_cons_iff] at isSuffix
              rcases isSuffix with rfl | inside
              · -- The stretch begins here, where the recogniser was asked and found nothing.
                obtain ⟨after, rfl⟩ := innerPrefix
                exact ⟨previous, after, nothing⟩
              · rcases split with own | tail
                · rw [own.1] at inside
                  exact absurd (List.suffix_nil.1 inside) nonempty
                · exact inductionHypothesis (tail ▸ List.mem_cons_self) inside
            · have laterMember : .plain literal ∈ scanFrom recognise (some character) 0 rest := by
                rcases split with own | tail
                · rw [← own.2]
                  exact later
                · rw [tail]
                  exact List.mem_cons_of_mem _ later
              exact inductionHypothesis laterMember isSuffix

end StepGrammar
