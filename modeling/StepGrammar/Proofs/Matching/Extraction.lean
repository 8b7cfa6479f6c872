import StepGrammar.Proofs.Matching.Reading
import StepGrammar.Proofs.Resolve.Allocation

/-!
Contract: the values that a match gives to the arguments of a definition.

Captures are counted off along the arguments that are not tables. That holds for any arguments, also
where they do not belong to the pattern. Where they are those of the pattern, the slots of a reading
stand beside them one by one, so every capture is used and every value is what its own piece spells.
-/

namespace StepGrammar

/-- Whether a value is a text less one layer of matching quotes around it, if it has one. -/
def IsUnquoted (text value : Text) : Prop :=
  (∃ quote ∈ ['"', '\x27'], text = quote :: (value ++ [quote])) ∨
    value = text ∧ ∀ quote ∈ ['"', '\x27'], ∀ content, text ≠ quote :: (content ++ [quote])

/-- Whether a value is what an argument of the type holds for a stretch of a text. Strings alone
lose their quotes. -/
def ArgType.Holds (type : ArgType) (stretch value : Text) : Prop :=
  if type = .parameter .string then IsUnquoted stretch value else value = stretch

/-- What it is for arguments to be bound to captures: definitions are kept, tables are left out, and
any other argument holds the capture at its own ordinal, or the empty text where there is none. -/
structure IsBinding (definitions : List ArgumentDefinition) (captures : Captures)
    (args : List ConcreteArg) : Prop where
  definitions : args.map ConcreteArg.definition = definitions
  tables : ∀ arg ∈ args, arg.type = .table → arg.value = []
  others : ∀ (index : Nat) (arg : ConcreteArg),
    (args.filter fun other => other.type != .table)[index]? = some arg →
    arg.type.Holds (captures[index]?.join.getD []) arg.value

/-- What it is for an argument to be extracted from a slot of a reading: it has the type of the
piece, and it holds the stretch that the piece spells, or nothing where the piece was left out. -/
structure IsExtracted (slot : Piece × Option Text) (arg : ConcreteArg) : Prop where
  declared : slot.1.declaredType? = some arg.type
  skipped : slot.2 = none → arg.value = []
  spelled : ∀ stretch, slot.2 = some stretch →
    slot.1.Spells stretch ∧ arg.type.Holds stretch arg.value

/-! ## Quotes -/

theorem stripQuote?_eq_some_iff {quote : Char} {text content : Text} :
    stripQuote? quote text = some content ↔ text = quote :: (content ++ [quote]) := by
  cases text with
  | nil => simp [stripQuote?]
  | cons character rest =>
      rw [stripQuote?, List.cons_eq_cons]
      constructor
      · intro stripped
        obtain ⟨quoted, same⟩ := Option.ite_none_right_eq_some.1 stripped
        rw [Bool.and_eq_true, beq_iff_eq, beq_iff_eq] at quoted
        obtain ⟨init, rfl⟩ := List.getLast?_eq_some_iff.1 quoted.2
        rw [List.dropLast_concat] at same
        exact ⟨quoted.1, by rw [Option.some.inj same]⟩
      · rintro ⟨rfl, rfl⟩
        simp

theorem isUnquoted_unquote (text : Text) : IsUnquoted text (unquote text) := by
  cases double : stripQuote? '"' text with
  | some content =>
      have value : unquote text = content := by simp [unquote, double]
      rw [value]
      exact Or.inl ⟨'"', by simp, stripQuote?_eq_some_iff.1 double⟩
  | none =>
      cases single : stripQuote? '\x27' text with
      | some content =>
          have value : unquote text = content := by simp [unquote, double, single]
          rw [value]
          exact Or.inl ⟨'\x27', by simp, stripQuote?_eq_some_iff.1 single⟩
      | none =>
          refine Or.inr ⟨by simp [unquote, double, single], ?_⟩
          intro quote isQuote content quoted
          have stripped := stripQuote?_eq_some_iff.2 quoted
          simp only [List.mem_cons, List.not_mem_nil, or_false] at isQuote
          rcases isQuote with rfl | rfl
          · rw [double] at stripped
            contradiction
          · rw [single] at stripped
            contradiction

theorem holds_readCapture (type : ArgType) (stretch : Text) :
    type.Holds stretch (type.readCapture stretch) := by
  unfold ArgType.Holds ArgType.readCapture
  split
  · exact isUnquoted_unquote stretch
  · rfl

theorem readCapture_nil (type : ArgType) : type.readCapture [] = [] := by
  unfold ArgType.readCapture
  split <;> rfl

/-! ## Any arguments -/

theorem isCaptured_iff {type : ArgType} : type.isCaptured ↔ type ≠ .table := by
  cases type <;> simp [ArgType.isCaptured]

/-- Captures are bound to any arguments in order. -/
theorem isBinding_bindCaptures (definitions : List ArgumentDefinition) (captures : Captures) :
    IsBinding definitions captures
      (bindCaptures definitions (captures.map fun capture => capture.getD [])) := by
  induction definitions generalizing captures with
  | nil => exact ⟨rfl, by simp [bindCaptures], by simp [bindCaptures]⟩
  | cons definition rest inductionHypothesis =>
      rw [bindCaptures]
      by_cases isTable : definition.type = .table
      · have uncaptured : ¬definition.type.isCaptured := by simp [isCaptured_iff, isTable]
        obtain ⟨definitions, tables, others⟩ := inductionHypothesis captures
        rw [if_neg uncaptured]
        refine ⟨?_, ?_, ?_⟩
        · rw [List.map_cons, definitions]
        · exact List.forall_mem_cons.2 ⟨fun _ => rfl, tables⟩
        · intro index arg found
          rw [List.filter_cons_of_neg (by simpa [ConcreteArg.type] using isTable)] at found
          exact others index arg found
      · obtain ⟨definitions, tables, others⟩ := inductionHypothesis captures.tail
        rw [if_pos (isCaptured_iff.2 isTable), ← List.map_tail]
        refine ⟨?_, ?_, ?_⟩
        · rw [List.map_cons, definitions]
        · exact List.forall_mem_cons.2 ⟨fun isTable' => absurd isTable' isTable, tables⟩
        · intro index arg found
          rw [List.filter_cons_of_pos (by simpa [ConcreteArg.type] using isTable)] at found
          cases index with
          | zero =>
              obtain rfl := Option.some.inj found
              have first : (captures.map fun capture => capture.getD []).headD [] =
                  captures[0]?.join.getD [] := by
                cases captures <;> rfl
              rw [first]
              exact holds_readCapture _ _
          | succ index =>
              have held := others index arg found
              rwa [List.getElem?_tail] at held

/-! ## The arguments of the pattern -/

theorem isCaptured_of_declaredType? {piece : Piece} {type : ArgType}
    (declares : piece.declaredType? = some type) : type.isCaptured := by
  cases piece with
  | enum | parameter | anonymous =>
      obtain rfl := Option.some.inj declares
      rfl
  | _ => simp [Piece.declaredType?, Piece.inlineDeclaration?, Piece.isTable, Piece.declaration?]
      at declares

/-- A piece that takes a value spells its stretch. -/
theorem spells_of_isReading {reading : List (Piece × Option Text)} (isReading : IsReading reading)
    {piece : Piece} {stretch : Text} (member : (piece, some stretch) ∈ reading)
    (captured : piece.isCaptured) : piece.Spells stretch := by
  induction isReading with
  | nil => contradiction
  | piece spells _ inductionHypothesis =>
      rcases List.mem_cons.1 member with same | later
      · obtain ⟨rfl, sameStretch⟩ := Prod.mk.inj same
        obtain rfl := Option.some.inj sameStretch
        exact spells
      · exact inductionHypothesis later
  | taken _ _ _ insideHypothesis restHypothesis =>
      simp only [List.mem_cons, List.mem_append, Prod.mk.injEq] at member
      rcases member with ⟨rfl, -⟩ | inside | ⟨rfl, -⟩ | later
      · exact absurd captured Bool.false_ne_true
      · exact insideHypothesis inside
      · exact absurd captured Bool.false_ne_true
      · exact restHypothesis later
  | skipped _ _ restHypothesis =>
      simp only [List.mem_cons, List.mem_append, List.mem_map, Prod.mk.injEq, reduceCtorEq,
        and_false, exists_false, false_or] at member
      exact restHypothesis member

/-- Arguments of the types that the pieces declare are extracted from the slots one by one. -/
theorem forall₂_isExtracted {slots : List (Piece × Option Text)}
    {definitions : List ArgumentDefinition}
    (aligned : definitions.map (fun definition => some definition.type) =
      slots.map fun slot => slot.1.declaredType?)
    (spells : ∀ slot ∈ slots, ∀ stretch, slot.2 = some stretch → slot.1.Spells stretch) :
    List.Forall₂ IsExtracted slots
      (bindCaptures definitions ((slots.map Prod.snd).map fun capture => capture.getD [])) := by
  induction slots generalizing definitions with
  | nil =>
      obtain rfl := List.map_eq_nil_iff.1 aligned
      exact .nil
  | cons slot later inductionHypothesis =>
      obtain ⟨definition, rest, rfl, declares, aligned⟩ := List.map_eq_cons_iff.1 aligned
      obtain ⟨slotSpells, laterSpells⟩ := List.forall_mem_cons.1 spells
      have isCaptured := isCaptured_of_declaredType? declares.symm
      rw [bindCaptures, if_pos isCaptured]
      refine .cons ⟨declares.symm, ?_, ?_⟩ (inductionHypothesis aligned laterSpells)
      · intro skipped
        rw [List.map_cons, List.map_cons, skipped]
        exact readCapture_nil definition.type
      · intro stretch taken
        refine ⟨slotSpells stretch taken, ?_⟩
        rw [List.map_cons, List.map_cons, taken]
        exact holds_readCapture definition.type stretch

/-- A match binds the captures to the arguments in order. Where these are the arguments of a pattern
without table, each of them is extracted from the piece that declares it. -/
theorem match_extracts_arguments {text : Text} {definition : StepDefinition} {result : MatchResult}
    (matched : matchStep? text definition = some result) :
    ∃ expression captures, definition.pattern.compile = .ok expression ∧
      expression.captures? text = some captures ∧
      IsBinding definition.args captures result.args ∧
      (definition.args = definition.pattern.arguments →
        endsInTable definition.pattern.tokens = false →
        captures.length = result.args.length ∧
          ∃ reading, IsReading reading ∧ reading.map Prod.fst = definition.pattern.pieces ∧
            readingText reading = text ∧ readingCaptures reading = captures ∧
            List.Forall₂ IsExtracted (reading.filter fun slot => slot.1.isCaptured)
              result.args) := by
  obtain ⟨captures, compiled, found, bound⟩ := captures?_of_matchStep? matched
  refine ⟨_, captures, compiled, found, ?_, ?_⟩
  · rw [bound]
    exact isBinding_bindCaptures definition.args captures
  · intro fromPattern tableFree
    obtain ⟨reading, isReading, pieces, rfl, rfl⟩ := exists_reading_of_captures? found
    have extracted : List.Forall₂ IsExtracted (reading.filter fun slot => slot.1.isCaptured)
        result.args := by
      rw [bound]
      apply forall₂_isExtracted
      · calc
          definition.args.map (fun argument => some argument.type)
            = (definition.args.map ArgumentDefinition.type).map some := by
              rw [List.map_map]
              rfl
          _ = (definition.pattern.pieces.filter Piece.isCaptured).map Piece.declaredType? := by
              rw [fromPattern, map_type_arguments tableFree, map_some_declaredTypes]
          _ = _ := by
              rw [← pieces, List.filter_map, List.map_map]
              rfl
      · intro slot member stretch taken
        obtain ⟨inReading, captured⟩ := List.mem_filter.1 member
        exact spells_of_isReading isReading (taken ▸ inReading) captured
    refine ⟨?_, reading, isReading, pieces, rfl, rfl, extracted⟩
    rw [← extracted.length_eq, readingCaptures, List.length_map]

/-- A definition with an argument in an optional group and a string with quotes. -/
def loanDefinition : StepDefinition :=
  .ofPattern "loan".toList "^{string} lends {any} (now|later)( for {int} days) to {}$".toList
    .givenStep

theorem match_extracts_arguments_loan :
    ∃ result reading,
      matchStep? "\"Ann Lee\" lends boats later to Bo Kim".toList loanDefinition = some result ∧
      result.values = ["Ann Lee".toList, "boats".toList, "later".toList, [], "Bo Kim".toList] ∧
      IsReading reading ∧
      readingText reading = "\"Ann Lee\" lends boats later to Bo Kim".toList ∧
      List.Forall₂ IsExtracted (reading.filter fun slot => slot.1.isCaptured) result.args := by
  have found : (matchStep? "\"Ann Lee\" lends boats later to Bo Kim".toList loanDefinition).map
      MatchResult.values =
        some ["Ann Lee".toList, "boats".toList, "later".toList, [], "Bo Kim".toList] := by
    decide +kernel
  obtain ⟨result, matched, values⟩ := Option.map_eq_some_iff.1 found
  obtain ⟨expression, captures, -, -, -, own⟩ := match_extracts_arguments matched
  obtain ⟨-, reading, isReading, -, text, -, extracted⟩ := own rfl (by decide +kernel)
  exact ⟨result, reading, matched, values, isReading, text, extracted⟩

end StepGrammar
