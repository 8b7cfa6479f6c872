import StepGrammar.Proofs.Pattern.ArgumentViews

/-!
Contract: a caller's definitions complete the segments of a pattern by position.

A caller's list is read at the position of each argument and nowhere else. Two lists therefore give
segments that agree but for the definitions of the arguments (`agree_segmentsFrom`), and these
definitions decide the segments (`eq_of_agree`). That completing twice changes nothing is then a
statement about one definition, `merge_merge`.
-/

namespace StepGrammar

/-! ## One definition -/

namespace ArgumentDefinition

/-- Whether a definition lists values exactly if it is a choice, and then at least one. -/
def ListsAsChoice (definition : ArgumentDefinition) : Prop :=
  match definition.enumValues with
  | some values => definition.type = .enum ∧ values ≠ []
  | none => definition.type ≠ .enum

theorem enumValues_of_listedValues_ne_nil {definition : ArgumentDefinition}
    (listed : definition.listedValues ≠ []) :
    definition.enumValues = some definition.listedValues := by
  unfold listedValues at listed ⊢
  cases values : definition.enumValues with
  | none => simp [values] at listed
  | some values => rfl

variable {parsed : ArgumentDefinition} {caller : Option ArgumentDefinition}

theorem type_merge : (parsed.merge caller).type = parsed.type := by
  cases caller <;> rfl

theorem tableColumns_merge : (parsed.merge caller).tableColumns = parsed.tableColumns := by
  cases caller <;> rfl

theorem name_merge : (parsed.merge caller).name = (caller.getD parsed).name := by
  cases caller <;> rfl

theorem required_merge : (parsed.merge caller).required = (caller.getD parsed).required := by
  cases caller <;> rfl

/-- A choice takes the caller's values if there are any. Every other definition keeps its own. -/
theorem mergedEnumValues_eq (lists : parsed.ListsAsChoice) (given : ArgumentDefinition) :
    mergedEnumValues parsed given =
      if parsed.type = .enum ∧ given.listedValues ≠ [] then some given.listedValues
      else parsed.enumValues := by
  unfold mergedEnumValues
  by_cases isEnum : parsed.type = .enum
  · by_cases empty : given.listedValues = []
    · simp [isEnum, empty]
    · simp [isEnum, empty, enumValues_of_listedValues_ne_nil empty]
  · have unlisted : parsed.enumValues = none := by
      unfold ListsAsChoice at lists
      cases values : parsed.enumValues with
      | none => rfl
      | some values =>
          rw [values] at lists
          exact absurd lists.1 isEnum
    simp [isEnum, unlisted]

theorem listsAsChoice_merge (lists : parsed.ListsAsChoice) :
    (parsed.merge caller).ListsAsChoice := by
  cases caller with
  | none => exact lists
  | some given =>
      unfold ListsAsChoice
      rw [type_merge]
      show match mergedEnumValues parsed given with
        | some values => parsed.type = .enum ∧ values ≠ []
        | none => parsed.type ≠ .enum
      rw [mergedEnumValues_eq lists]
      split_ifs with taken
      · exact taken
      · exact lists

/-- A definition that was completed from a caller is not changed by completing from it again. -/
theorem merge_merge (lists : parsed.ListsAsChoice) :
    parsed.merge (some (parsed.merge caller)) = parsed.merge caller := by
  have values : mergedEnumValues parsed (parsed.merge caller) =
      (parsed.merge caller).enumValues := by
    rw [mergedEnumValues_eq lists]
    split_ifs with taken
    · exact (enumValues_of_listedValues_ne_nil taken.2).symm
    · -- Nothing is taken, so the completed definition lists what the parsed one does.
      cases caller with
      | none => rfl
      | some given =>
          show parsed.enumValues = mergedEnumValues parsed given
          rw [mergedEnumValues_eq lists, if_neg]
          rintro ⟨isEnum, nonempty⟩
          have same : (parsed.merge (some given)).listedValues = given.listedValues := by
            show (mergedEnumValues parsed given).getD [] = given.listedValues
            rw [mergedEnumValues_eq lists, if_pos ⟨isEnum, nonempty⟩, Option.getD_some]
          exact taken ⟨isEnum, same ▸ nonempty⟩
  calc parsed.merge (some (parsed.merge caller))
      = { parsed.merge caller with
          enumValues := mergedEnumValues parsed (parsed.merge caller) } := by cases caller <;> rfl
    _ = parsed.merge caller := by rw [values]

end ArgumentDefinition

theorem parameter_ne_enum (type : ParameterType) : ArgType.parameter type ≠ .enum := by
  simp

theorem listsAsChoice_define {token : Token} (lexed : token.IsLexed) {declaration : Declaration}
    (declares : token.piece.inlineDeclaration? = some declaration) (index : Nat) :
    (declaration.define index).ListsAsChoice := by
  cases piece : token.piece with
  | enum values =>
      rw [piece] at declares
      obtain rfl := Option.some.inj declares
      exact ⟨rfl, (lexed.values_filled piece).1⟩
  | parameter type name =>
      rw [piece] at declares
      obtain rfl := Option.some.inj declares
      exact parameter_ne_enum type
  | anonymous =>
      rw [piece] at declares
      obtain rfl := Option.some.inj declares
      exact parameter_ne_enum .any
  | _ => simp [piece, Piece.inlineDeclaration?, Piece.isTable, Piece.declaration?] at declares

/-! ## The definitions of a pattern -/

theorem getElem?_completeFrom (caller definitions : List ArgumentDefinition)
    (index position : Nat) :
    (completeFrom caller index definitions)[position]? =
      definitions[position]?.map fun parsed => parsed.merge caller[index + position]? := by
  induction definitions generalizing index position with
  | nil => rfl
  | cons parsed rest inductionHypothesis =>
      rw [completeFrom]
      cases position with
      | zero => rfl
      | succ position =>
          rw [List.getElem?_cons_succ, inductionHypothesis, List.getElem?_cons_succ]
          rw [show index + 1 + position = index + (position + 1) by omega]

theorem length_completeFrom (caller definitions : List ArgumentDefinition) (index : Nat) :
    (completeFrom caller index definitions).length = definitions.length := by
  induction definitions generalizing index with
  | nil => rfl
  | cons parsed rest inductionHypothesis =>
      rw [completeFrom, List.length_cons, inductionHypothesis, List.length_cons]

theorem completeFrom_completeFrom {definitions : List ArgumentDefinition}
    (list : ∀ parsed ∈ definitions, parsed.ListsAsChoice) (caller : List ArgumentDefinition) :
    completeFrom (completeFrom caller 0 definitions) 0 definitions =
      completeFrom caller 0 definitions := by
  apply List.ext_getElem?
  intro position
  rw [getElem?_completeFrom, Nat.zero_add, getElem?_completeFrom]
  cases found : definitions[position]? with
  | none => rfl
  | some parsed =>
      have member : parsed ∈ definitions := List.mem_of_getElem? found
      exact congrArg some (ArgumentDefinition.merge_merge (list parsed member))

theorem listsAsChoice_of_mem_defineFrom {tokens : List Token}
    (lexed : ∀ token ∈ tokens, token.IsLexed) (index : Nat) :
    ∀ definition ∈ defineFrom index (inlineDeclarations tokens), definition.ListsAsChoice := by
  induction tokens generalizing index with
  | nil => simp [inlineDeclarations, defineFrom]
  | cons token rest inductionHypothesis =>
      obtain ⟨head, tail⟩ := List.forall_mem_cons.1 lexed
      rw [inlineDeclarations, List.filterMap_cons]
      cases declares : token.piece.inlineDeclaration? with
      | none => exact inductionHypothesis tail index
      | some declaration =>
          exact List.forall_mem_cons.2
            ⟨listsAsChoice_define head declares index, inductionHypothesis tail (index + 1)⟩

/-- Text brings no definition. -/
theorem exists_arg_of_mem_consText {value : Text} {segments : List PatternSegment}
    {segment : PatternSegment} {definition : ArgumentDefinition}
    (member : segment ∈ PatternSegment.consText value segments)
    (carried : segment.arg = some definition) :
    ∃ other ∈ segments, other.arg = some definition := by
  have carrying (text : Text) : segment ≠ .ofText text := by
    rintro rfl
    simp [PatternSegment.ofText] at carried
  cases segments with
  | nil => exact absurd (List.mem_singleton.1 member) (carrying _)
  | cons first rest =>
      rw [PatternSegment.consText] at member
      split at member
      · rcases List.mem_cons.1 member with text | member
        · exact absurd text (carrying _)
        · exact ⟨segment, List.mem_cons_of_mem _ member, carried⟩
      · rcases List.mem_cons.1 member with text | member
        · exact absurd text (carrying _)
        · exact ⟨segment, member, carried⟩

theorem listsAsChoice_of_mem_segmentsFrom (caller : List ArgumentDefinition) {tokens : List Token}
    (lexed : ∀ token ∈ tokens, token.IsLexed) (index : Nat) :
    ∀ segment ∈ segmentsFrom caller index tokens,
      ∀ definition, segment.arg = some definition → definition.ListsAsChoice := by
  induction tokens generalizing index with
  | nil => simp [segmentsFrom]
  | cons token rest inductionHypothesis =>
      obtain ⟨head, tail⟩ := List.forall_mem_cons.1 lexed
      rw [segmentsFrom]
      split
      · refine List.forall_mem_cons.2 ⟨fun definition carried => ?_, inductionHypothesis tail index⟩
        obtain rfl := Option.some.inj carried
        exact parameter_ne_enum .string
      · split
        · rename_i declaration declares
          refine List.forall_mem_cons.2
            ⟨fun definition carried => ?_, inductionHypothesis tail (index + 1)⟩
          obtain rfl := Option.some.inj carried
          exact ArgumentDefinition.listsAsChoice_merge (listsAsChoice_define head declares index)
        · intro segment member definition carried
          obtain ⟨other, otherMember, otherCarried⟩ := exists_arg_of_mem_consText member carried
          exact inductionHypothesis tail index other otherMember definition otherCarried

/-! ## Two lists of a caller -/

namespace PatternSegment

/-- Segments that are equal, or arguments other than outline references that differ at most in
their definitions. -/
inductive Agrees : PatternSegment → PatternSegment → Prop where
  | same (segment : PatternSegment) : Agrees segment segment
  | argument {value : Text} (notOutline : ¬isOutlineReference value)
      (first second : ArgumentDefinition) : Agrees (.ofArg value first) (.ofArg value second)

theorem Agrees.kind_eq {first second : PatternSegment} (agrees : first.Agrees second) :
    first.kind = second.kind := by
  cases agrees <;> rfl

theorem Agrees.value_eq {first second : PatternSegment} (agrees : first.Agrees second) :
    first.value = second.value := by
  cases agrees <;> rfl

theorem Agrees.eq_of_isOutline {first second : PatternSegment} (agrees : first.Agrees second)
    (isOutline : first.isOutline) : first = second := by
  cases agrees with
  | same => rfl
  | argument notOutline => exact absurd isOutline notOutline

theorem Agrees.consText {first second : List PatternSegment}
    (agree : List.Forall₂ Agrees first second) (value : Text) :
    List.Forall₂ Agrees (PatternSegment.consText value first)
      (PatternSegment.consText value second) := by
  cases agree with
  | nil => exact .cons (.same _) .nil
  | cons head tail =>
      rw [PatternSegment.consText, PatternSegment.consText, head.kind_eq, head.value_eq]
      split
      · exact .cons (.same _) tail
      · exact .cons (.same _) (.cons head tail)

end PatternSegment

open PatternSegment (Agrees)

theorem agree_segmentsFrom (caller other : List ArgumentDefinition) {tokens : List Token}
    (lexed : ∀ token ∈ tokens, token.IsLexed) (index : Nat) :
    List.Forall₂ Agrees (segmentsFrom caller index tokens) (segmentsFrom other index tokens) := by
  induction tokens generalizing index with
  | nil => exact .nil
  | cons token rest inductionHypothesis =>
      obtain ⟨head, tail⟩ := List.forall_mem_cons.1 lexed
      rw [segmentsFrom, segmentsFrom]
      split
      · exact .cons (.same _) (inductionHypothesis tail index)
      · split
        · rename_i declaration declares
          have notOutline := not_isOutlineReference_raw head (by rw [declares]; rfl)
          exact .cons (.argument notOutline _ _) (inductionHypothesis tail (index + 1))
        · exact Agrees.consText (inductionHypothesis tail index) token.raw

/-- Segments that agree are equal if their arguments have the same definitions. -/
theorem eq_of_agree {first second : List PatternSegment} (agree : List.Forall₂ Agrees first second)
    (definitions : segmentArguments first = segmentArguments second) : first = second := by
  induction agree with
  | nil => rfl
  | cons head tail inductionHypothesis =>
      cases head with
      | same segment =>
          rw [segmentArguments, segmentArguments, List.filterMap_cons, List.filterMap_cons]
            at definitions
          split at definitions
          · rw [inductionHypothesis definitions]
          · rw [inductionHypothesis (List.cons.inj definitions).2]
      | argument notOutline =>
          rw [segmentArguments_ofArg notOutline, segmentArguments_ofArg notOutline] at definitions
          obtain ⟨rfl, rest⟩ := List.cons.inj definitions
          rw [inductionHypothesis rest]

/-! ## The segments of a pattern -/

theorem segmentArguments_segments_of_not_endsInTable {pattern : Pattern}
    (tableFree : endsInTable pattern.tokens = false) (caller : List ArgumentDefinition) :
    segmentArguments (pattern.segments caller) = completeFrom caller 0 pattern.arguments := by
  rw [(arguments_of_not_endsInTable tableFree).1, inlineArguments_eq, Pattern.segments, tableFree]
  exact segmentArguments_segmentsFrom caller (fun _ => isLexed_of_mem_tokens) 0

theorem agree_segments (pattern : Pattern) (caller other : List ArgumentDefinition) :
    List.Forall₂ Agrees (pattern.segments caller) (pattern.segments other) :=
  agree_segmentsFrom _ _ (fun _ => isLexed_of_mem_tokens) 0

theorem listsAsChoice_of_mem_arguments {pattern : Pattern}
    (tableFree : endsInTable pattern.tokens = false) :
    ∀ parsed ∈ pattern.arguments, parsed.ListsAsChoice := by
  rw [(arguments_of_not_endsInTable tableFree).1, inlineArguments_eq]
  exact listsAsChoice_of_mem_defineFrom (fun _ => isLexed_of_mem_tokens) 0

theorem segments_of_endsInTable {pattern : Pattern} (ends : endsInTable pattern.tokens)
    (caller other : List ArgumentDefinition) :
    pattern.segments caller = pattern.segments other := by
  simp only [Pattern.segments, if_pos ends]

theorem segments_complete_again {pattern : Pattern}
    (tableFree : endsInTable pattern.tokens = false) (caller : List ArgumentDefinition) :
    pattern.segments (segmentArguments (pattern.segments caller)) = pattern.segments caller := by
  apply eq_of_agree (agree_segments pattern _ caller)
  simp only [segmentArguments_segments_of_not_endsInTable tableFree]
  exact completeFrom_completeFrom (listsAsChoice_of_mem_arguments tableFree) caller

theorem segments_of_own_arguments (pattern : Pattern) :
    pattern.segments pattern.arguments = pattern.segments [] := by
  cases ends : endsInTable pattern.tokens with
  | true => exact segments_of_endsInTable ends _ _
  | false =>
      have again := segments_complete_again ends []
      rwa [segmentArguments_segments_of_not_endsInTable ends, completeFrom_nil] at again

theorem segments_getElem?_of_isOutline {pattern : Pattern} {caller : List ArgumentDefinition}
    (other : List ArgumentDefinition) {position : Nat} {segment : PatternSegment}
    (found : (pattern.segments caller)[position]? = some segment) (isOutline : segment.isOutline) :
    (pattern.segments other)[position]? = some segment := by
  have agree := agree_segments pattern caller other
  obtain ⟨inside, rfl⟩ := List.getElem?_eq_some_iff.1 found
  have otherInside : position < (pattern.segments other).length := agree.length_eq ▸ inside
  have same := (agree.get inside otherInside).eq_of_isOutline isOutline
  exact List.getElem?_eq_some_iff.2 ⟨otherInside, same.symm⟩

/-- How the definitions of a caller complete the segments of a pattern. An argument segment that is
no outline reference has a number, which is its position among such segments. -/
structure CompletesByPosition (pattern : Pattern) (caller : List ArgumentDefinition) : Prop where
  /-- A pattern that ends in a table takes nothing from the caller. -/
  table : endsInTable pattern.tokens → pattern.segments caller = pattern.segments []
  /-- There is a segment for each argument. -/
  count : endsInTable pattern.tokens = false →
    (segmentArguments (pattern.segments caller)).length = pattern.arguments.length
  /-- Type and columns are the pattern's, name and required flag the caller's where it has any. -/
  sides : endsInTable pattern.tokens = false →
    ∀ (position : Nat) (definition parsed : ArgumentDefinition),
      (segmentArguments (pattern.segments caller))[position]? = some definition →
      pattern.arguments[position]? = some parsed →
        definition.type = parsed.type ∧ definition.tableColumns = parsed.tableColumns ∧
          definition.name = (caller[position]?.getD parsed).name ∧
          definition.required = (caller[position]?.getD parsed).required
  /-- Outline references are at the same places and the same whatever the caller's definitions. -/
  outlines : ∀ (other : List ArgumentDefinition) (position : Nat) (segment : PatternSegment),
    (pattern.segments caller)[position]? = some segment → segment.isOutline →
      (pattern.segments other)[position]? = some segment
  /-- Choices list values, and nothing else does. -/
  choices : ∀ segment ∈ pattern.segments caller, ∀ definition, segment.arg = some definition →
    definition.ListsAsChoice
  /-- The pattern's own definitions change nothing. -/
  own : pattern.segments pattern.arguments = pattern.segments []
  /-- What was completed is not changed by completing it from itself. -/
  again : endsInTable pattern.tokens = false →
    pattern.segments (segmentArguments (pattern.segments caller)) = pattern.segments caller

/-- The definitions of a caller complete the segments of a pattern by position, safely for their
types, and once and for all. -/
theorem segments_complete_by_position (pattern : Pattern) (caller : List ArgumentDefinition) :
    CompletesByPosition pattern caller where
  table ends := segments_of_endsInTable ends caller []
  count tableFree := by
    rw [segmentArguments_segments_of_not_endsInTable tableFree, length_completeFrom]
  sides tableFree position definition parsed found declared := by
    rw [segmentArguments_segments_of_not_endsInTable tableFree, getElem?_completeFrom, declared]
      at found
    obtain rfl := Option.some.inj found
    rw [Nat.zero_add]
    exact ⟨ArgumentDefinition.type_merge, ArgumentDefinition.tableColumns_merge,
      ArgumentDefinition.name_merge, ArgumentDefinition.required_merge⟩
  outlines other _ _ := segments_getElem?_of_isOutline other
  choices := listsAsChoice_of_mem_segmentsFrom _ (fun _ => isLexed_of_mem_tokens) 0
  own := segments_of_own_arguments pattern
  again tableFree := segments_complete_again tableFree caller

end StepGrammar
