import Mathlib.Data.List.TakeWhile
import StepGrammar.Fallback
import StepGrammar.Proofs.Pattern.Tokens
import StepGrammar.Proofs.Text.Stretch

/-!
Contract: how the values of a step text are written in it.

A string is the content of double quotes or an outline reference, and a number is a run of digits
that no word continues. `eachConstruct_rawSpans` says that the scan of a text finds nothing
else, so a proof about the values has these four cases.
-/

namespace StepGrammar

/-- Whether a value is read from a stretch of a step text, in front of the text behind it. -/
inductive LooseValue.IsReadFrom : LooseValue → (raw behind : Text) → Prop
  | quoted {content behind} (free : '"' ∉ content) :
      IsReadFrom ⟨.string, content⟩ ('"' :: (content ++ ['"'])) behind
  | reference {raw behind} (outline : isOutlineReference raw) : IsReadFrom ⟨.string, raw⟩ raw behind
  | integer {raw behind} (nonempty : raw ≠ []) (digits : ∀ character ∈ raw, isDigit character)
      (ends : ¬startsWord behind) : IsReadFrom ⟨.int, raw⟩ raw behind
  | decimal {whole places behind} (wholeNonempty : whole ≠ [])
      (wholeDigits : ∀ character ∈ whole, isDigit character) (placesNonempty : places ≠ [])
      (placesDigits : ∀ character ∈ places, isDigit character) (ends : ¬startsWord behind) :
      IsReadFrom ⟨.float, whole ++ '.' :: places⟩ (whole ++ '.' :: places) behind

def Found.Reads (found : Found LooseValue) (text : Text) : Prop :=
  ∃ raw behind, text = raw ++ behind ∧ found.length = raw.length ∧
    found.value.IsReadFrom raw behind

variable {text : Text} {found : Found LooseValue}

theorem quotedValue?_reads (recognised : quotedValue? text = some found) : found.Reads text := by
  cases text with
  | nil => simp [quotedValue?] at recognised
  | cons character rest =>
      simp only [quotedValue?, Option.ite_none_right_eq_some, beq_iff_eq, Option.some.injEq]
        at recognised
      obtain ⟨rfl, shorter, rfl⟩ := recognised
      have split := List.takeWhile_append_dropWhile (p := fun inner => inner != '"') (l := rest)
      have free : '"' ∉ rest.takeWhile fun inner => inner != '"' := fun member => by
        simpa using List.mem_takeWhile_imp member
      -- The content is shorter than the rest, so a quote stands behind it.
      cases closing : rest.dropWhile fun inner => inner != '"' with
      | nil =>
          rw [closing, List.append_nil] at split
          rw [split] at shorter
          exact absurd shorter (Nat.lt_irrefl _)
      | cons last behind =>
          have isQuote : last = '"' := by
            have head := List.head_dropWhile_not (fun inner => inner != '"') (l := rest)
              (by simp [closing])
            simpa [closing] using head
          rw [closing, isQuote] at split
          exact ⟨_, behind, by simpa using split.symm, by simp, .quoted free⟩

theorem outlineValue?_reads (recognised : outlineValue? text = some found) : found.Reads text := by
  obtain ⟨name, named, rfl⟩ := Option.map_eq_some_iff.1 recognised
  obtain ⟨behind, split, -⟩ := outlineName?_eq_some_iff.1 named
  exact ⟨outlineReference name, behind, split, by simp [outlineReference],
    .reference (isOutlineReference_outlineReference named)⟩

theorem decimalPlaces?_eq_some {places : Text} (recognised : decimalPlaces? text = some places) :
    ∃ digits behind, places = '.' :: digits ∧ text = places ++ behind ∧ digits ≠ [] ∧
      (∀ character ∈ digits, isDigit character) ∧ ¬startsWord behind := by
  cases text with
  | nil => simp [decimalPlaces?] at recognised
  | cons character rest =>
      simp only [decimalPlaces?, Option.ite_none_right_eq_some, Bool.and_eq_true, beq_iff_eq,
        Bool.not_eq_true', List.isEmpty_eq_false_iff, Option.some.injEq] at recognised
      obtain ⟨⟨⟨rfl, nonempty⟩, ends⟩, rfl⟩ := recognised
      refine ⟨rest.takeWhile isDigit, rest.dropWhile isDigit, rfl, by simp, nonempty, ?_, ?_⟩
      · exact fun digit member => List.mem_takeWhile_imp member
      · exact Bool.eq_false_iff.1 ends

theorem numberValue?_reads {previous : Option Char}
    (recognised : numberValue? previous text = some found) : found.Reads text := by
  have split := List.takeWhile_append_dropWhile (p := isDigit) (l := text)
  have digits : ∀ character ∈ text.takeWhile isDigit, isDigit character := fun digit member =>
    List.mem_takeWhile_imp member
  unfold numberValue? at recognised
  split at recognised
  case isTrue => simp at recognised
  case isFalse =>
    simp only at recognised
    split at recognised
    case isTrue => simp at recognised
    case isFalse filled =>
      have nonempty : text.takeWhile isDigit ≠ [] := by simpa using filled
      split at recognised
      case h_1 places placed =>
        obtain rfl := Option.some.inj recognised
        obtain ⟨_, behind, rfl, remaining, placesNonempty, placesDigits, ends⟩ :=
          decimalPlaces?_eq_some placed
        refine ⟨_, behind, ?_, List.length_append.symm,
          .decimal nonempty digits placesNonempty placesDigits ends⟩
        rw [List.append_assoc, ← remaining, split]
      case h_2 =>
        split at recognised
        case isTrue => simp at recognised
        case isFalse ends =>
          obtain rfl := Option.some.inj recognised
          exact ⟨_, _, split.symm, rfl, .integer nonempty digits ends⟩

/-- Whatever is found in a step text is read from the text at which it was found. -/
theorem looseValue?_reads {previous : Option Char}
    (recognised : looseValue? previous text = some found) : found.Reads text := by
  simp only [looseValue?, Option.orElse_eq_orElse, Option.orElse_eq_or, Option.or_eq_some_iff]
    at recognised
  rcases recognised with quoted | ⟨-, reference | ⟨-, number⟩⟩
  · exact quotedValue?_reads quoted
  · exact outlineValue?_reads reference
  · exact numberValue?_reads number

theorem raw_ne_nil {value : LooseValue} {raw behind : Text}
    (reads : value.IsReadFrom raw behind) : raw ≠ [] := by
  cases reads with
  | quoted => exact List.cons_ne_nil _ _
  | reference outline =>
      rintro rfl
      exact absurd outline (by decide)
  | integer nonempty => exact nonempty
  | decimal => simp

theorem looseValue?_positive {previous : Option Char}
    (recognised : looseValue? previous text = some found) : 0 < found.length := by
  obtain ⟨raw, behind, -, length, reads⟩ := looseValue?_reads recognised
  rw [length]
  exact List.length_pos_of_ne_nil (raw_ne_nil reads)

/-- The spans of a step text, every value in its stretch. -/
def rawSpans (text : Text) : List (Span (LooseValue × Text)) := scan looseValue?.withRaw text

def rawValues (spans : List (Span (LooseValue × Text))) : List (LooseValue × Text) :=
  spans.filterMap fun
    | .plain _ => none
    | .construct found => some found

theorem mem_rawValues_iff {spans : List (Span (LooseValue × Text))} {found : LooseValue × Text} :
    found ∈ rawValues spans ↔ .construct found ∈ spans := by
  rw [rawValues, List.mem_filterMap]
  constructor
  · rintro ⟨span, member, same⟩
    cases span with
    | plain literal => simp at same
    | construct other =>
        obtain rfl := Option.some.inj same
        exact member
  · exact fun member => ⟨_, member, rfl⟩

theorem map_fst_rawSpans (text : Text) :
    (rawSpans text).map (Span.map Prod.fst) = scan looseValue? text :=
  map_fst_scan_withRaw looseValue? text

theorem flatMap_covered_rawSpans (text : Text) :
    (rawSpans text).flatMap (Span.covered Prod.snd) = text :=
  flatMap_covered_scan (covers_withRaw fun _ _ _ => looseValue?_positive) text

theorem eachConstruct_rawSpans (text : Text) :
    EachConstruct LooseValue.IsReadFrom (rawSpans text) := by
  apply eachConstruct_scanFrom fun _ _ _ => looseValue?_positive
  intro previous text found recognised
  obtain ⟨raw, behind, rfl, length, reads⟩ := looseValue?_reads recognised
  rwa [length, List.take_left, List.drop_left]

end StepGrammar
