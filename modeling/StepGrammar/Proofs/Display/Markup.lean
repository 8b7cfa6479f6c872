import Mathlib.Tactic.SplitIfs
import StepGrammar.Display

/-!
Contract: the text of a markup document, written and read back.

Written text holds none of the five special characters but the ampersands of entities. A reader goes
through a document once: it takes the tags away, puts the text of an argument span between brackets
and decodes the entities. What it leaves of the markup of a token is the plain text of the token.
-/

namespace StepGrammar.Markup

/-! ## Written text -/

def entities : List (Text × Char) :=
  [("&amp;".toList, '&'), ("&lt;".toList, '<'), ("&gt;".toList, '>'), ("&quot;".toList, '"'),
    ("&apos;".toList, '\x27')]

/-- Whether a character is written as an entity. -/
def isSpecial (character : Char) : Bool := (entities.map Prod.snd).contains character

/-- Text without special characters, where every ampersand belongs to an entity. -/
inductive IsText : Text → Prop
  | nil : IsText []
  | plain {character : Char} {rest : Text} (ordinary : ¬isSpecial character)
      (text : IsText rest) : IsText (character :: rest)
  | entity {written : Text} {character : Char} {rest : Text}
      (listed : (written, character) ∈ entities) (text : IsText rest) : IsText (written ++ rest)

/-- A character is written as its entity or as it stands. -/
theorem escapeCharacter_cases (character : Char) :
    (escapeCharacter character, character) ∈ entities ∨
      (¬isSpecial character ∧ escapeCharacter character = [character]) := by
  unfold escapeCharacter
  split_ifs with ampersand less greater double single
  · subst ampersand; decide
  · subst less; decide
  · subst greater; decide
  · subst double; decide
  · subst single; decide
  · refine Or.inr ⟨?_, rfl⟩
    simp [isSpecial, entities, ampersand, less, greater, double, single]

theorem isText_escape (text : Text) : IsText (escape text) := by
  induction text with
  | nil => exact .nil
  | cons character rest inductionHypothesis =>
      rw [escape, List.flatMap_cons]
      rcases escapeCharacter_cases character with listed | ⟨ordinary, same⟩
      · exact .entity listed inductionHypothesis
      · rw [same]
        exact .plain ordinary inductionHypothesis

theorem escape_append (first second : Text) :
    escape (first ++ second) = escape first ++ escape second := List.flatMap_append

/-- No tag begins in written text. -/
theorem IsText.notMem {text : Text} (isText : IsText text) : '<' ∉ text := by
  induction isText with
  | nil => exact List.not_mem_nil
  | plain ordinary _ inductionHypothesis =>
      rw [List.mem_cons, not_or]
      refine ⟨?_, inductionHypothesis⟩
      rintro rfl
      exact ordinary rfl
  | @entity written character rest listed _ inductionHypothesis =>
      have all : ∀ entity ∈ entities, '<' ∉ entity.1 := by decide
      rw [List.mem_append, not_or]
      exact ⟨all _ listed, inductionHypothesis⟩

/-! ## Entities -/

def decode : Text → Text
  | '&' :: 'a' :: 'm' :: 'p' :: ';' :: rest => '&' :: decode rest
  | '&' :: 'l' :: 't' :: ';' :: rest => '<' :: decode rest
  | '&' :: 'g' :: 't' :: ';' :: rest => '>' :: decode rest
  | '&' :: 'q' :: 'u' :: 'o' :: 't' :: ';' :: rest => '"' :: decode rest
  | '&' :: 'a' :: 'p' :: 'o' :: 's' :: ';' :: rest => '\x27' :: decode rest
  | character :: rest => character :: decode rest
  | [] => []

theorem decode_cons {character : Char} (ordinary : ¬isSpecial character) (rest : Text) :
    decode (character :: rest) = character :: decode rest := by
  have different : character ≠ '&' := by
    rintro rfl
    exact ordinary rfl
  simp [decode, different]

theorem decode_entity {written : Text} {character : Char} (listed : (written, character) ∈ entities)
    (rest : Text) : decode (written ++ rest) = character :: decode rest := by
  simp only [entities, List.mem_cons, Prod.mk.injEq, List.not_mem_nil, or_false] at listed
  rcases listed with ⟨rfl, rfl⟩ | ⟨rfl, rfl⟩ | ⟨rfl, rfl⟩ | ⟨rfl, rfl⟩ | ⟨rfl, rfl⟩ <;> rfl

/-- Decoding gives back what was written. -/
theorem decode_escape (text : Text) : decode (escape text) = text := by
  induction text with
  | nil => rfl
  | cons character rest inductionHypothesis =>
      rw [escape, List.flatMap_cons]
      rcases escapeCharacter_cases character with listed | ⟨ordinary, same⟩
      · rw [decode_entity listed]
        exact congrArg (character :: ·) inductionHypothesis
      · rw [same, List.singleton_append, decode_cons ordinary]
        exact congrArg (character :: ·) inductionHypothesis

/-! ## Tags -/

def opensArgument (tag : Text) : Bool := "span class=\"step-arg ".toList.isPrefixOf tag

/-- What a reader leaves of a document: no tags, and brackets around the text of each argument span.
It may stand in an argument span, and in a tag of which it has read a part. -/
def stripFrom (inArgument : Bool) : Option Text → Text → Text
  | _, [] => []
  | none, character :: rest =>
    if character = '<' then stripFrom inArgument (some []) rest
    else character :: stripFrom inArgument none rest
  | some tag, character :: rest =>
    if character ≠ '>' then stripFrom inArgument (some (tag ++ [character])) rest
    else if opensArgument tag then '[' :: stripFrom true none rest
    else if inArgument then ']' :: stripFrom false none rest
    else stripFrom false none rest

/-- The document as plain text: argument spans become bracketed text, all other tags go, and the
entities are decoded. -/
def toPlain (html : Text) : Text := decode (stripFrom false none html)

variable {inArgument : Bool} {text tag : Text}

/-- Text without tags is passed over. -/
theorem stripFrom_text (free : '<' ∉ text) (rest : Text) :
    stripFrom inArgument none (text ++ rest) = text ++ stripFrom inArgument none rest := by
  induction text with
  | nil => rfl
  | cons character text inductionHypothesis =>
      rw [List.mem_cons, not_or] at free
      rw [List.cons_append, stripFrom, if_neg (Ne.symm free.1), inductionHypothesis free.2]
      rfl

theorem stripFrom_inside (closed : '>' ∉ tag) (front rest : Text) :
    stripFrom inArgument (some front) (tag ++ rest) =
      stripFrom inArgument (some (front ++ tag)) rest := by
  induction tag generalizing front with
  | nil => rw [List.append_nil, List.nil_append]
  | cons character tag inductionHypothesis =>
      rw [List.mem_cons, not_or] at closed
      rw [List.cons_append, stripFrom, if_pos (Ne.symm closed.1), inductionHypothesis closed.2,
        List.append_assoc, List.singleton_append]

/-- A tag is read up to its end. -/
theorem stripFrom_tag (closed : '>' ∉ tag) (rest : Text) :
    stripFrom inArgument none ('<' :: (tag ++ '>' :: rest)) =
      stripFrom inArgument (some tag) ('>' :: rest) := by
  rw [stripFrom, if_pos rfl, stripFrom_inside closed, List.nil_append]

theorem stripFrom_opening (closed : '>' ∉ tag) (opens : opensArgument tag) (rest : Text) :
    stripFrom inArgument none ('<' :: (tag ++ '>' :: rest)) = '[' :: stripFrom true none rest := by
  rw [stripFrom_tag closed, stripFrom, if_neg (by simp), if_pos opens]

theorem stripFrom_other (closed : '>' ∉ tag) (other : ¬opensArgument tag) (rest : Text) :
    stripFrom false none ('<' :: (tag ++ '>' :: rest)) = stripFrom false none rest := by
  rw [stripFrom_tag closed, stripFrom, if_neg (by simp), if_neg other, if_neg Bool.false_ne_true]

theorem stripFrom_closing (closed : '>' ∉ tag) (other : ¬opensArgument tag) (rest : Text) :
    stripFrom true none ('<' :: (tag ++ '>' :: rest)) = ']' :: stripFrom false none rest := by
  rw [stripFrom_tag closed, stripFrom, if_neg (by simp), if_neg other, if_pos rfl]

theorem stripFrom_escape (text rest : Text) :
    stripFrom inArgument none (escape text ++ rest) =
      escape text ++ stripFrom inArgument none rest :=
  stripFrom_text (isText_escape text).notMem rest

/-- The tag that opens the span of an argument, without its angle brackets. -/
def argumentTag (type : ArgType) (index : Nat) : Text :=
  "span class=\"step-arg step-arg-".toList ++ type.name ++ "\" data-arg-index=\"".toList ++
    Text.ofNat index ++ ['"']

theorem argumentSpan_eq (type : ArgType) (index : Nat) (name : Text) :
    argumentSpan type index name =
      '<' :: (argumentTag type index ++ '>' :: (escape name ++ "</span>".toList)) := by
  have opening : "<span class=\"step-arg step-arg-".toList =
      '<' :: "span class=\"step-arg step-arg-".toList := rfl
  have closing : "\">".toList = ['"', '>'] := rfl
  delta argumentSpan argumentTag
  rw [opening, closing]
  simp only [List.append_assoc, List.cons_append, List.nil_append]

theorem closed_argumentTag (type : ArgType) (index : Nat) : '>' ∉ argumentTag type index := by
  have named : '>' ∉ type.name := by rcases type with (_ | _) | _ | _ <;> decide
  have digits : '>' ∉ Text.ofNat index := by
    intro member
    have digit := Nat.isDigit_of_mem_toDigits (by decide) (by decide) member
    exact absurd digit (by decide)
  delta argumentTag
  simp only [List.mem_append, not_or]
  exact ⟨⟨⟨⟨by decide, named⟩, by decide⟩, digits⟩, by decide⟩

theorem opensArgument_argumentTag (type : ArgType) (index : Nat) :
    opensArgument (argumentTag type index) := by
  rw [opensArgument, List.isPrefixOf_iff_prefix]
  refine ⟨"step-arg-".toList ++ type.name ++ "\" data-arg-index=\"".toList ++ Text.ofNat index ++
    ['"'], ?_⟩
  delta argumentTag
  simp only [← List.append_assoc]
  rfl

/-- The text of an argument span comes to stand in brackets. -/
theorem stripFrom_argumentSpan (type : ArgType) (index : Nat) (name rest : Text) :
    stripFrom false none (argumentSpan type index name ++ rest) =
      escape ('[' :: name ++ [']']) ++ stripFrom false none rest := by
  have closed : '>' ∉ "/span".toList := by decide
  have other : ¬opensArgument "/span".toList := by decide
  have ending : "</span>".toList ++ rest = '<' :: ("/span".toList ++ '>' :: rest) := rfl
  have brackets : escape ('[' :: name ++ [']']) = '[' :: escape name ++ [']'] := by
    rw [escape_append]
    rfl
  rw [argumentSpan_eq, List.cons_append, List.append_assoc, List.cons_append, List.append_assoc,
    stripFrom_opening (closed_argumentTag type index) (opensArgument_argumentTag type index),
    stripFrom_escape, ending, stripFrom_closing closed other, brackets]
  simp only [List.append_assoc, List.cons_append, List.nil_append]

end StepGrammar.Markup
