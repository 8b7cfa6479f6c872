import StepGrammar.Pattern.Source
import StepGrammar.Proofs.Pattern.Tokens
import StepGrammar.Proofs.Regex.Reading

/-!
Contract: the expression that the written form of a pattern stands for.

Every piece contributes items to one sequence, without a detour through text. `read?_source` says
that reading the written form gives this sequence, so the written form of a pattern is never
malformed.
-/

namespace StepGrammar

open Regex

def ParameterType.expression : ParameterType → Regex
  | .string =>
    ofChoice
      [ofSequence [.one (.only '"'), .star (.except '"'), .one (.only '"')],
       ofSequence [.one (.only '\x27'), .star (.except '\x27'), .one (.only '\x27')],
       ofSequence [.plus .nonBlank]]
  | .int => ofSequence [.option (.one (.only '-')), .plus .digit]
  | .float =>
    ofSequence [.option (.one (.only '-')), .star .digit, .option (.one (.only '.')), .plus .digit]
  | .word | .any => ofSequence [.plus .nonBlank]

/-- The expression inside the capture group of a piece that takes a value from the step text. -/
def Piece.captureBody? : Piece → Option Regex
  | .enum values => some (ofTexts values)
  | .parameter type _ => some type.expression
  | .anonymous => some (ofSequence [.plus .nonNewline])
  | _ => none

def Piece.items : Piece → List Regex
  | .anchor | .optionalOpen | .optionalClose => []
  | .text characters => literalItems characters
  | .escape character => literalItems [character]
  | .table _ => literalItems [':']
  | .enum values => [.capture (ofTexts values)]
  | .parameter type _ => [.capture type.expression]
  | .anonymous => [.capture (ofSequence [.plus .nonNewline])]
  | .alternatives words => [ofTexts words]
  | .outline name => literalItems (outlineReference name)

def tokenItems (tokens : List Token) : List Regex := tokens.flatMap fun token => token.piece.items

def Part.items : Part → List Regex
  | .token single => single.piece.items
  | .optional body => [.option (ofSequence (tokenItems body))]

def Pattern.expression (pattern : Pattern) : Regex := ofSequence (pattern.parts.flatMap Part.items)

/-! ## Reading the fragments -/

theorem escape_head? (text : Text) : (escape text).head? ≠ some '?' := by
  cases text with
  | nil => simp [escape]
  | cons character rest =>
      rw [escape]
      split
      · simp
      · rename_i plain
        rintro same
        obtain rfl : character = '?' := by simpa using same
        exact plain (by decide)

/-- A choice among literal texts does not begin like the mark of a group without capture. -/
theorem choiceFragment_head? (texts : List Text) : (choiceFragment texts).head? ≠ some '?' := by
  cases texts with
  | nil => simp [choiceFragment, Text.join, List.intercalate]
  | cons first more =>
      have start := escape_head? first
      cases more with
      | nil => simpa [choiceFragment, Text.join, List.intercalate] using start
      | cons next more =>
          cases written : escape first with
          | nil => simp [choiceFragment, Text.join, List.intercalate, written]
          | cons character rest =>
              simpa [choiceFragment, Text.join, List.intercalate, written] using start

theorem readItems_typeFragment (type : ParameterType) (frame : Frame) (outer : List Frame)
    (rest : Text) :
    readItems frame outer (type.fragment ++ rest) =
      readItems (frame.push (.capture type.expression)) outer rest := by
  cases type <;> rfl

theorem readItems_capturedTexts {texts : List Text} (nonempty : texts ≠ []) (frame : Frame)
    (outer : List Frame) (rest : Text) :
    readItems frame outer ('(' :: choiceFragment texts ++ ')' :: rest) =
      readItems (frame.push (.capture (ofTexts texts))) outer rest := by
  have unmarked : ∀ others, choiceFragment texts ++ ')' :: rest = '?' :: ':' :: others → False := by
    intro others same
    have start := congrArg List.head? same
    cases written : choiceFragment texts with
    | nil => simp [written] at same
    | cons character more =>
        have head := choiceFragment_head? texts
        simp_all
  cases texts with
  | nil => exact absurd rfl nonempty
  | cons first more =>
      rw [List.cons_append, readItems.eq_4 _ _ _ unmarked]
      exact readItems_texts first more true [] frame outer rest

theorem readItems_anyOfTexts {texts : List Text} (nonempty : texts ≠ []) (frame : Frame)
    (outer : List Frame) (rest : Text) :
    readItems frame outer ("(?:".toList ++ choiceFragment texts ++ ')' :: rest) =
      readItems (frame.push (ofTexts texts)) outer rest := by
  cases texts with
  | nil => exact absurd rfl nonempty
  | cons first more => exact readItems_texts first more false [] frame outer rest

/-- The fragment of a token that stands alone adds the items of its piece. -/
theorem readItems_fragment {token : Token} (wellFormed : token.WellFormed) (frame : Frame)
    (outer : List Frame) (rest : Text) :
    readItems frame outer (token.piece.fragment ++ rest) =
      readItems (frame.append token.piece.items) outer rest := by
  unfold Token.WellFormed at wellFormed
  cases piece : token.piece with
  | anchor => rfl
  | text characters => exact readItems_escape characters frame outer rest
  | escape character => exact readItems_escape [character] frame outer rest
  | table columns => rfl
  | enum values =>
      simp only [piece] at wellFormed
      have read := readItems_capturedTexts wellFormed.1 frame outer rest
      simpa [Piece.fragment, Piece.items, Frame.push_eq_append] using read
  | parameter type name => exact readItems_typeFragment type frame outer rest
  | anonymous => rfl
  | optionalOpen => simp [piece] at wellFormed
  | optionalClose => simp [piece] at wellFormed
  | alternatives words =>
      simp only [piece] at wellFormed
      have read := readItems_anyOfTexts wellFormed frame outer rest
      simpa [Piece.fragment, Piece.items, Frame.push_eq_append] using read
  | outline name => exact readItems_escape (outlineReference name) frame outer rest

theorem readItems_fragments {tokens : List Token} (wellFormed : ∀ token ∈ tokens, token.WellFormed)
    (frame : Frame) (outer : List Frame) (rest : Text) :
    readItems frame outer ((tokens.flatMap fun token => token.piece.fragment) ++ rest) =
      readItems (frame.append (tokenItems tokens)) outer rest := by
  induction tokens generalizing frame with
  | nil => rfl
  | cons token others inductionHypothesis =>
      have head := (List.forall_mem_cons.1 wellFormed).1
      have tail := (List.forall_mem_cons.1 wellFormed).2
      rw [List.flatMap_cons, List.append_assoc, readItems_fragment head, inductionHypothesis tail]
      simp [tokenItems]

/-- A piece that may stand in an optional group contributes at least one item. -/
theorem items_ne_nil {token : Token} (inline : token.piece.isInline)
    (wellFormed : token.WellFormed) : token.piece.items ≠ [] := by
  unfold Token.WellFormed at wellFormed
  cases piece : token.piece with
  | text characters =>
      simp only [piece] at wellFormed
      simpa [Piece.items, literalItems] using wellFormed
  | escape | parameter | anonymous | outline => exact List.cons_ne_nil _ _
  | _ =>
      rw [piece] at inline
      exact absurd inline Bool.false_ne_true

theorem readItems_part {part : Part} (wellFormed : part.WellFormed) (frame : Frame)
    (outer : List Frame) (rest : Text) :
    readItems frame outer ((part.tokens.flatMap fun token => token.piece.fragment) ++ rest) =
      readItems (frame.append part.items) outer rest := by
  cases part with
  | token single =>
      have read := readItems_fragment wellFormed frame outer rest
      simpa [Part.tokens, Part.items] using read
  | optional body =>
      rcases wellFormed with ⟨nonempty, inside⟩
      have itemsNonempty : tokenItems body ≠ [] := by
        cases body with
        | nil => exact absurd rfl nonempty
        | cons first others =>
            have firstInside := inside first List.mem_cons_self
            simp [tokenItems, items_ne_nil firstInside.1 firstInside.2]
      have unfolded :
          ((Part.optional body).tokens.flatMap fun token => token.piece.fragment) ++ rest =
            '(' :: '?' :: ':' :: ((body.flatMap fun token => token.piece.fragment) ++
              ')' :: '?' :: rest) := by
        simp [Part.tokens, Piece.fragment]
      rw [unfolded, readItems.eq_3, readItems_fragments fun token member => (inside token member).2,
        readItems_close]
      have closed : ((Frame.opened false).append (tokenItems body)).close =
          ofSequence (tokenItems body) := by
        rw [Frame.close_eq, Frame.current_append_opened]
        rfl
      rw [closed, readItems_optional itemsNonempty]
      rfl

theorem readItems_parts {parts : List Part} (wellFormed : ∀ part ∈ parts, part.WellFormed)
    (frame : Frame) (outer : List Frame) (rest : Text) :
    readItems frame outer
        (((parts.flatMap Part.tokens).flatMap fun token => token.piece.fragment) ++ rest) =
      readItems (frame.append (parts.flatMap Part.items)) outer rest := by
  induction parts generalizing frame with
  | nil => rfl
  | cons part others inductionHypothesis =>
      have head := (List.forall_mem_cons.1 wellFormed).1
      have tail := (List.forall_mem_cons.1 wellFormed).2
      rw [List.flatMap_cons, List.flatMap_append, List.append_assoc, readItems_part head,
        inductionHypothesis tail]
      simp

/-- Reading the written form of a pattern gives its expression. -/
theorem read?_source (pattern : Pattern) : read? pattern.source = some pattern.expression := by
  have wellFormed : ∀ part ∈ pattern.parts, part.WellFormed := fun _ => wellFormed_of_mem_parts
  have read := readItems_parts wellFormed (Frame.opened false) [] ['$']
  rw [readItems_end, Frame.current_append_opened] at read
  exact read

/-- A pattern compiles to its expression, unless that is too large. -/
theorem compileWith_source (fits : Regex → Bool) (pattern : Pattern) :
    compileWith fits pattern.source =
      if fits pattern.expression then .ok pattern.expression
      else .error (.tooLarge sizeLimit) := by
  rw [compileWith, read?_source]

theorem compile_eq (pattern : Pattern) :
    pattern.compile =
      if pattern.expression.isWithinLimit then .ok pattern.expression
      else .error (.tooLarge sizeLimit) :=
  compileWith_source isWithinLimit pattern

theorem compile_eq_ok {pattern : Pattern}
    (accepted : pattern.compile ≠ .error (.tooLarge sizeLimit)) :
    pattern.compile = .ok pattern.expression := by
  rw [compile_eq] at accepted ⊢
  split
  · rfl
  · rename_i tooLarge
    exact absurd (if_neg tooLarge) accepted

end StepGrammar
