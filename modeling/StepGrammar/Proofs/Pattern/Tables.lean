import StepGrammar.Proofs.Pattern.Tiling
import StepGrammar.Proofs.Resolve.Allocation

/-!
Contract: which patterns declare a table, and with which columns.

A table is read from the position of its colon, or of the parenthesis of its column list, to the end
of the body. The lexer comes to that position unless a construct that begins before it covers it,
and the cases of `Part.IsWritten` leave no construct that could: apart from tables and escapes each is
closed by a bracket or made of words. So the end of the body alone decides, whatever stands before.
-/

namespace StepGrammar

/-! ## Tables in the body and among the tokens -/

/-- The token of a construct that stands alone in the body is a token of the pattern. -/
theorem mem_tokens_of_scan {pattern : Pattern} {token : Token}
    (member : .construct (.token token) ∈ scan part? (Anchored.ofPattern pattern).body) :
    token ∈ pattern.tokens := by
  refine List.mem_flatMap.2 ⟨.token token, ?_, List.mem_singleton_self token⟩
  refine List.mem_append_left _ (List.mem_append_right _ ?_)
  exact List.mem_map.2 ⟨_, member, rfl⟩

/-- A pattern ends in a table exactly when the scan of its body finds one. -/
theorem endsInTable_iff {pattern : Pattern} :
    endsInTable pattern.tokens ↔
      ∃ part : Part, part.isTable ∧
        .construct part ∈ scan part? (Anchored.ofPattern pattern).body := by
  constructor
  · intro ends
    obtain ⟨inner, token, closing, split, -, isTable, -⟩ := tokens_of_endsInTable ends
    have member : token ∈ pattern.tokens := by simp [split]
    obtain ⟨part, partMember, tokenMember⟩ := List.mem_flatMap.1 member
    have partTable : part.isTable := by
      by_contra notTable
      exact not_isTable_of_mem_tokens (wellFormed_of_mem_parts partMember) notTable tokenMember
        isTable
    simp only [Pattern.parts, List.mem_append] at partMember
    rcases partMember with (opening | body) | closing
    · rw [mem_anchorParts opening] at partTable
      exact absurd partTable Bool.false_ne_true
    · obtain ⟨span, spanMember, rfl⟩ := List.mem_map.1 body
      cases span with
      | plain text => exact absurd partTable Bool.false_ne_true
      | construct found => exact ⟨found, partTable, spanMember⟩
    · rw [mem_anchorParts closing] at partTable
      exact absurd partTable Bool.false_ne_true
  · rintro ⟨part, isTable, member⟩
    by_contra tableFree
    cases part with
    | optional inside => exact absurd isTable Bool.false_ne_true
    | token token =>
        exact not_isTable_of_not_endsInTable (eq_false_of_ne_true tableFree)
          (mem_tokens_of_scan member) isTable

/-- What a pattern declares when one of its pieces is a table. -/
structure DeclaresTable (pattern : Pattern) (columns : Option (List Text)) : Prop where
  arguments : pattern.arguments = [tableArgument columns 0]
  tokens : ∃ before raw anchors, pattern.tokens = before ++ ⟨.table columns, raw⟩ :: anchors ∧
    (∀ token ∈ before, ¬token.piece.isTable) ∧ ∀ token ∈ anchors, token.piece = .anchor

/-- A table among the pieces is the only argument, and no token but an anchor stands behind it. -/
theorem declaresTable_of_mem {pattern : Pattern} {columns : Option (List Text)}
    (member : .table columns ∈ pattern.pieces) : DeclaresTable pattern columns := by
  obtain ⟨token, tokenMember, piece⟩ := List.mem_map.1 member
  have isTable : token.piece.isTable := by rw [piece]; rfl
  have ends : endsInTable pattern.tokens := by
    by_contra tableFree
    exact not_isTable_of_not_endsInTable (eq_false_of_ne_true tableFree) tokenMember isTable
  obtain ⟨before, last, anchors, split, tableFree, -, onlyAnchors⟩ := tokens_of_endsInTable ends
  -- Every token with a table is the one at the end.
  have unique : ∀ other ∈ pattern.tokens, other.piece.isTable → other = last := by
    intro other otherMember otherTable
    rw [split] at otherMember
    rcases List.mem_append.1 otherMember with early | late
    · exact absurd otherTable (tableFree other early)
    · rcases List.mem_cons.1 late with same | anchor
      · exact same
      · rw [onlyAnchors other anchor] at otherTable
        exact absurd otherTable Bool.false_ne_true
  obtain rfl := unique token tokenMember isTable
  refine ⟨?_, before, token.raw, anchors, ?_, tableFree, onlyAnchors⟩
  · obtain ⟨declared, declaredMember, alone, -⟩ := arguments_of_endsInTable ends
    obtain ⟨other, otherMember, otherPiece⟩ := List.mem_map.1 declaredMember
    obtain rfl := unique other otherMember (by rw [otherPiece]; rfl)
    obtain rfl : declared = columns := by
      rw [piece] at otherPiece
      exact (Piece.table.inj otherPiece).symm
    exact alone
  · rw [split, ← piece]

/-- No argument is a table in a pattern that does not end in one. -/
theorem type_ne_table {pattern : Pattern} (tableFree : endsInTable pattern.tokens = false)
    {argument : ArgumentDefinition} (member : argument ∈ pattern.arguments) :
    argument.type ≠ .table := by
  have declared := List.mem_map_of_mem (f := ArgumentDefinition.type) member
  rw [map_type_arguments tableFree, declaredTypes] at declared
  obtain ⟨declaration, inline, same⟩ := List.mem_map.1 declared
  obtain ⟨piece, -, declares⟩ := List.mem_filterMap.1 inline
  rw [← same]
  cases piece with
  | enum | parameter | anonymous =>
      obtain rfl := Option.some.inj declares
      simp
  | _ => contradiction

/-! ## The closing colon -/

/-- Whether a text, blanks at its end aside, ends in a colon that no backslash directly precedes. -/
def endsInColon (text : Text) : Bool :=
  (Text.trimEnd text).getLast? == some ':' && (Text.trimEnd text).dropLast.getLast? != some '\\'

theorem endsInColon_iff {text : Text} :
    endsInColon text ↔ ∃ front trailing, text = front ++ ':' :: trailing ∧ trailing.all isBlank ∧
      front.getLast? ≠ some '\\' := by
  rw [endsInColon, Bool.and_eq_true, beq_iff_eq, bne_iff_ne]
  constructor
  · rintro ⟨colon, unescaped⟩
    obtain ⟨trailing, split, trails⟩ := Text.exists_trimEnd text
    obtain ⟨front, trimmed⟩ := List.getLast?_eq_some_iff.1 colon
    rw [trimmed, List.dropLast_concat] at unescaped
    exact ⟨front, trailing, by rw [split, trimmed]; simp, trails, unescaped⟩
  · rintro ⟨front, trailing, rfl, trails, unescaped⟩
    have trimmed : Text.trimEnd (front ++ ':' :: trailing) = front ++ [':'] := by
      rw [← List.singleton_append, ← List.append_assoc]
      apply Text.trimEnd_append trails
      rw [List.getLast?_concat]
      decide
    rw [trimmed, List.getLast?_concat, List.dropLast_concat]
    exact ⟨rfl, unescaped⟩

theorem table?_eq_none_of_not_endsInColon {text : Text} (notColon : ¬endsInColon text) :
    table? text = none := by
  rw [Option.eq_none_iff_forall_ne_some]
  intro found recognised
  apply notColon
  have isTable : (found.part text).value.isTable := by
    obtain ⟨⟨columns, declared⟩, -⟩ := table?_eq_some recognised
    rw [Found.part, Found.token, declared]
    rfl
  obtain ⟨stretch, behind, split, -, written⟩ := table?_isWritten recognised
  obtain ⟨rfl, front, trailing, rfl, trails, unescaped⟩ := written.eq_of_isTable isTable
  rw [split, List.append_nil]
  exact endsInColon_iff.2 ⟨front, trailing, rfl, trails, unescaped⟩

theorem part?_table {previous : Option Char} {text : Text} {found : Found Piece}
    (noEscape : escape? text = none) (recognised : table? text = some found) :
    part? previous text = some (found.part text) := by
  simp [part?, noEscape, recognised]

theorem part?_colon {previous : Option Char} {trailing : Text} (trails : trailing.all isBlank) :
    ∃ found, part? previous (':' :: trailing) = some found ∧ found.value.isTable := by
  have colon : isClosingColon (':' :: trailing) := isClosingColon_iff.2 ⟨trailing, rfl, trails⟩
  have noColumns : columnList? (':' :: trailing) = none := by
    have notBlank : isBlank ':' = false := by decide
    simp [columnList?, Text.trimStart, notBlank]
  have recognised : table? (':' :: trailing) =
      some ⟨.table none, (':' :: trailing).length⟩ := by
    rw [table?, noColumns]
    exact if_pos colon
  exact ⟨_, part?_table (escape?_eq_none (Or.inl (by decide))) recognised, rfl⟩

/-- What stands before the last character of an escape is its backslash. -/
theorem getLast?_of_escape {character last : Char} {middle tail : Text}
    (covered : ['\\', character] = middle ++ last :: tail) (nonempty : middle ≠ []) :
    middle.getLast? = some '\\' := by
  match middle, nonempty, covered with
  | [first], _, covered =>
      obtain ⟨rfl, -⟩ := List.cons_eq_cons.1 covered
      rfl
  | first :: second :: middle, _, covered => simp at covered

/-- A construct with a closing colon inside is a table or the escape of that colon. -/
theorem Part.IsWritten.isTable_of_colon {part : Part} {behind middle tail : Text}
    (written : part.IsWritten (middle ++ ':' :: tail) behind) (trails : tail.all isBlank)
    (nonempty : middle ≠ []) (unescaped : middle.getLast? ≠ some '\\') : part.isTable := by
  by_contra notTable
  rcases written.closes notTable with ⟨character, escape, -⟩ | chain | ⟨bracket, isBracket, ends⟩
  · exact unescaped (getLast?_of_escape escape.symm nonempty)
  · have colonFree : ':' ∉ middle ++ ':' :: tail := Text.notMem_of_all chain (by decide +kernel)
    exact colonFree (by simp)
  · simp only [List.mem_cons, List.not_mem_nil, or_false] at isBracket
    rcases isBracket with rfl | rfl | rfl <;>
      exact getLast?_ne_of_trailing trails (by decide) (by decide) ends

/-- The scan of a body finds a table exactly when the body ends in an open colon. -/
theorem exists_table_iff {body : Text} :
    (∃ part : Part, part.isTable ∧ .construct part ∈ scan part? body) ↔ endsInColon body := by
  rw [endsInColon_iff]
  constructor
  · rintro ⟨part, isTable, member⟩
    obtain ⟨before, after, split⟩ := List.append_of_mem member
    obtain ⟨stretch, behind, asked, written⟩ := exists_isWritten_of_scan split
    obtain ⟨rfl, front, trailing, rfl, trails, unescaped⟩ := written.eq_of_isTable isTable
    refine ⟨before.flatMap (Span.covered Part.raw) ++ front, trailing, ?_, trails, ?_⟩
    · rw [asked.split, List.append_nil, List.append_assoc]
    · cases front with
      | nil =>
          intro backslash
          rw [List.append_nil] at backslash
          exact absurd (not_isEscapable_of_isAsked asked backslash)
            (by simp [isEscapable, escapables])
      | cons first front =>
          rwa [List.getLast?_append_of_ne_nil _ (List.cons_ne_nil _ _)]
  · rintro ⟨front, trailing, body, trails, unescaped⟩
    rcases isAsked_or_isWritten body with asked | ⟨earlier, middle, tail, behind, part, rfl,
      nonempty, rfl, written, member⟩
    · obtain ⟨found, recognised, isTable⟩ := part?_colon trails
      exact ⟨found.value, isTable, asked.found_mem advances_part? recognised⟩
    · rw [List.all_append, Bool.and_eq_true] at trails
      rw [List.getLast?_append_of_ne_nil _ nonempty] at unescaped
      exact ⟨part, written.isTable_of_colon trails.1 nonempty unescaped, member⟩

/-- A pattern declares a table exactly when its body ends in a colon that no backslash directly
precedes, blanks aside. It then declares nothing else, and no token but an anchor stands behind the
table. Which text is the body is said by `ofPattern_eq_iff`. -/
theorem declares_table_iff_endsInColon (pattern : Pattern) :
    ((∃ argument ∈ pattern.arguments, argument.type = .table) ↔
        endsInColon (Anchored.ofPattern pattern).body) ∧
      (endsInColon (Anchored.ofPattern pattern).body → ∃ columns, DeclaresTable pattern columns) ∧
      (endsInColon (Anchored.ofPattern pattern).body = false →
        ∀ token ∈ pattern.tokens, ¬token.piece.isTable) := by
  rw [← Bool.not_eq_true, ← exists_table_iff, ← endsInTable_iff, Bool.not_eq_true]
  have declares : endsInTable pattern.tokens → ∃ columns, DeclaresTable pattern columns := by
    intro ends
    obtain ⟨columns, member, -⟩ := arguments_of_endsInTable ends
    exact ⟨columns, declaresTable_of_mem member⟩
  refine ⟨⟨?_, ?_⟩, declares, fun tableFree _ => not_isTable_of_not_endsInTable tableFree⟩
  · rintro ⟨argument, member, isTable⟩
    by_contra tableFree
    exact type_ne_table (eq_false_of_ne_true tableFree) member isTable
  · intro ends
    obtain ⟨columns, declared⟩ := declares ends
    exact ⟨tableArgument columns 0, by simp [declared.arguments], rfl⟩

/-- A pattern whose last group is no column list, with blanks behind the colon and an anchor. -/
def seatsPattern : Pattern := "^seats \\(by row\\) (A|B) : $".toList

theorem declares_table_seats :
    endsInColon (Anchored.ofPattern seatsPattern).body ∧
      ∃ columns, DeclaresTable seatsPattern columns := by
  have ends : endsInColon (Anchored.ofPattern seatsPattern).body := by decide +kernel
  exact ⟨ends, (declares_table_iff_endsInColon seatsPattern).2.1 ends⟩

end StepGrammar
