import StepGrammar.Proofs.Pattern.Tables

/-!
Contract: a column list declares its columns whatever stands before it.

The lexer comes to the opening parenthesis of the list unless a construct that begins before it
covers it. A group cannot, since every parenthesis inside a group is escaped; a chain of words or a
parameter holds no parenthesis; and an outline reference would have to be closed behind the list,
where nothing closes it. Only the table itself may begin earlier, at the blanks before the
parenthesis.
-/

namespace StepGrammar

/-! ## Names in a list -/

/-- Whether a character can stand in the name of a column that is listed with others. -/
def isColumnNameCharacter (character : Char) : Bool :=
  !(['(', ')', '|', ',', '<', '>', '\\'].contains character)

def isColumnName (column : Text) : Bool :=
  !column.isEmpty && Text.isTrimmed column && column.all isColumnNameCharacter

def columnListing (columns : List Text) : Text := Text.join [',', ' '] columns

section Names

variable {columns : List Text}

theorem isColumnName_iff {column : Text} :
    isColumnName column ↔
      column ≠ [] ∧ Text.isTrimmed column ∧ column.all isColumnNameCharacter := by
  simp [isColumnName, and_assoc]

/-- Listed columns are read back. -/
theorem columnNames_columnListing (nonempty : columns ≠ [])
    (named : ∀ column ∈ columns, isColumnName column) :
    columnNames (columnListing columns) = columns := by
  have commaFree : ∀ column ∈ columns, ',' ∉ column := by
    intro column member
    exact Text.notMem_of_all (isColumnName_iff.1 (named column member)).2.2 (by decide)
  have trimmed : ∀ column ∈ columns, Text.isTrimmed column := fun column member =>
    (isColumnName_iff.1 (named column member)).2.1
  have blank : ([' '] : Text).all isBlank := by decide
  rw [columnNames, columnListing,
    Text.map_trim_splitOn_join (by decide) blank nonempty commaFree trimmed]
  apply List.filter_eq_self.2
  intro column member
  simpa using (isColumnName_iff.1 (named column member)).1

/-- A listing holds the characters of its columns, commas and spaces. -/
theorem all_columnListing {holds : Char → Bool} (separators : holds ',' ∧ holds ' ')
    (names : ∀ character, isColumnNameCharacter character → holds character)
    (named : ∀ column ∈ columns, isColumnName column) : (columnListing columns).all holds := by
  apply Text.all_join
  · simp [separators]
  · intro column member
    have allowed := (isColumnName_iff.1 (named column member)).2.2
    exact List.all_eq_true.2 fun character inside =>
      names character (List.all_eq_true.1 allowed character inside)

end Names

/-! ## The opening parenthesis -/

/-- What may stand behind the opening parenthesis of a column list, up to the end of the body. -/
structure IsColumnList (content gap trailing : Text) : Prop where
  allowed : content.all isColumnCharacter
  bracketFree : '>' ∉ content
  between : gap.all isBlank
  trails : trailing.all isBlank

section Opening

variable {part : Part} {stretch behind middle tail content gap trailing : Text}

/-- Behind the parenthesis a visible character other than the delimiters is one of the content. -/
theorem mem_content_of_mem_list {character : Char} (between : gap.all isBlank)
    (trails : trailing.all isBlank) (visible : ¬isBlank character)
    (different : character ≠ ')' ∧ character ≠ ':')
    (member : character ∈ content ++ ')' :: (gap ++ ':' :: trailing)) : character ∈ content := by
  simp only [List.mem_append, List.mem_cons] at member
  rcases member with inside | closing | early | colon | late
  · exact inside
  · exact absurd closing different.1
  · exact absurd early (Text.notMem_of_all between visible)
  · exact absurd colon different.2
  · exact absurd late (Text.notMem_of_all trails visible)

theorem opening_notMem_list (allowed : content.all isColumnCharacter) (between : gap.all isBlank)
    (trails : trailing.all isBlank) : '(' ∉ content ++ ')' :: (gap ++ ':' :: trailing) := by
  intro member
  have inside := mem_content_of_mem_list between trails (by decide) (by decide) member
  exact Text.notMem_of_all allowed (by decide) inside

/-- The content of a group that holds a parenthesis has a backslash directly before it. -/
theorem getLast?_of_parenthesised {inside : Text} (escaped : escapesParentheses none inside)
    (covered : parenthesised inside = middle ++ '(' :: tail) (nonempty : middle ≠ []) :
    middle.getLast? = some '\\' := by
  obtain ⟨first, front, rfl⟩ := List.exists_cons_of_ne_nil nonempty
  rw [parenthesised, List.cons_append, List.cons.injEq] at covered
  cases tail using List.reverseRecOn with
  | nil => exact absurd (List.append_inj' covered.2 rfl).2 (by decide)
  | append_singleton tail last =>
      rw [← List.cons_append, ← List.append_assoc] at covered
      have same := (List.append_inj' covered.2 rfl).1
      rw [same] at escaped
      have backslash := getLast?_of_escapesParentheses (by decide) escaped
      rw [Option.or_none] at backslash
      rw [List.getLast?_cons, backslash]
      rfl

theorem opening_notMem_parameter {type : ParameterType} {name : Option Text}
    (word : ∀ written ∈ name, written.all isWord) :
    '(' ∉ '{' :: (type.name ++ nameSuffix name ++ ['}']) := by
  have notWord : isWord '(' = false := by decide +kernel
  have notType : '(' ∉ type.name := by cases type <;> decide
  have notName : '(' ∉ nameSuffix name := by
    cases name with
    | none => exact List.not_mem_nil
    | some written =>
        have inside : '(' ∉ written := Text.notMem_of_all (word written rfl) (by simp [notWord])
        simpa [nameSuffix] using inside
  simp [notType, notName]

/-- A construct that covers the parenthesis of a column list together with what stands before it is
the table of that list. -/
theorem Part.IsWritten.eq_table_of_list (written : part.IsWritten stretch behind)
    (covered : stretch = middle ++ '(' :: tail) (nonempty : middle ≠ [])
    (unescaped : middle.getLast? ≠ some '\\') (list : IsColumnList content gap trailing)
    (split : tail ++ behind = content ++ ')' :: (gap ++ ':' :: trailing)) :
    part = .token ⟨.table (listedColumns content), stretch⟩ := by
  have inStretch : '(' ∈ stretch := by simp [covered]
  cases written with
  | escape => exact absurd (getLast?_of_escape covered nonempty) unescaped
  | @columns blanks own ownGap ownTrailing leading allowed between trails =>
      -- The table begins at the blanks before the parenthesis, so its list is this one.
      have blanksFree : '(' ∉ blanks := Text.notMem_of_all leading (by decide)
      have ownFree := opening_notMem_list allowed between trails
      obtain ⟨rfl, -, rest⟩ := (List.append_cons_inj_of_notMem blanksFree ownFree).1 covered
      have same : columnSuffix blanks own ownGap ownTrailing =
          columnSuffix blanks content gap trailing := by
        rw [columnSuffix, columnSuffix, rest, ← split, List.append_nil]
      have ownContent := columnList?_eq_some_iff.2
        ⟨blanks, ownGap, ownTrailing, rfl, leading, allowed, between, trails⟩
      have listContent := columnList?_eq_some_iff.2
        ⟨blanks, gap, trailing, same, leading, list.allowed, list.between, list.trails⟩
      obtain rfl := Option.some.inj (ownContent.symm.trans listContent)
      rfl
  | colon trails =>
      rcases List.mem_cons.1 inStretch with colon | blank
      · exact absurd colon (by decide)
      · exact absurd blank (Text.notMem_of_all trails (by decide))
  | enum escaped => exact absurd (getLast?_of_parenthesised escaped covered nonempty) unescaped
  | optional escaped => exact absurd (getLast?_of_parenthesised escaped covered nonempty) unescaped
  | parameter word => exact absurd inStretch (opening_notMem_parameter word)
  | anonymous => exact absurd inStretch (by decide)
  | alternatives _ _ chain =>
      exact absurd inStretch (Text.notMem_of_all chain (by decide +kernel))
  | @outline name =>
      -- The closing bracket of the reference would stand in the list.
      have closes : (middle ++ '(' :: tail).getLast? = some '>' := by
        rw [← covered]
        exact List.getLast?_concat (l := '<' :: name)
      rw [List.getLast?_append_of_ne_nil _ (List.cons_ne_nil _ _)] at closes
      have inTail : '>' ∈ tail := by simpa using List.mem_of_getLast? closes
      have inList : '>' ∈ content ++ ')' :: (gap ++ ':' :: trailing) :=
        split ▸ List.mem_append_left behind inTail
      exact absurd (mem_content_of_mem_list list.between list.trails (by decide) (by decide) inList)
        list.bracketFree

/-- A column list at the end of a body is the table of the body, whatever stands before it. -/
theorem exists_table_of_list {front : Text} (unescaped : front.getLast? ≠ some '\\')
    (list : IsColumnList content gap trailing) :
    ∃ raw, .construct (.token ⟨.table (listedColumns content), raw⟩) ∈
      scan part? (front ++ columnSuffix [] content gap trailing) := by
  have opens : columnSuffix [] content gap trailing =
      '(' :: (content ++ ')' :: (gap ++ ':' :: trailing)) := rfl
  rcases isAsked_or_isWritten (congrArg (front ++ ·) opens) with
    asked | ⟨earlier, middle, tail, behind, part, rfl, nonempty, split, written, member⟩
  · have listed : columnList? (columnSuffix [] content gap trailing) = some content :=
      columnList?_eq_some_iff.2
        ⟨[], gap, trailing, rfl, rfl, list.allowed, list.between, list.trails⟩
    have recognised : table? (columnSuffix [] content gap trailing) =
        some ⟨.table (listedColumns content), (columnSuffix [] content gap trailing).length⟩ := by
      rw [table?, listed]
      rfl
    have noEscape : escape? (columnSuffix [] content gap trailing) = none :=
      escape?_eq_none (Or.inl (by decide))
    exact ⟨_, asked.found_mem advances_part? (part?_table noEscape recognised)⟩
  · rw [List.getLast?_append_of_ne_nil _ nonempty] at unescaped
    rw [written.eq_table_of_list rfl nonempty unescaped list split.symm] at member
    exact ⟨_, member⟩

end Opening

/-! ## Columns of a pattern -/

/-- A suffix without anchors ends the body as well, behind all of the pattern but its opening
anchor. -/
theorem exists_body_append {before : Text} (unescaped : before.getLast? ≠ some '\\')
    (suffix : Text) (nonempty : suffix ≠ []) (noCaret : suffix.head? ≠ some '^')
    (noDollar : suffix.getLast? ≠ some '$') :
    ∃ front, (Anchored.ofPattern (before ++ suffix)).body = front ++ suffix ∧
      front.getLast? ≠ some '\\' := by
  have notClosed : ∀ front : Text, (front ++ suffix).getLast? ≠ some '$' := fun front => by
    rwa [List.getLast?_append_of_ne_nil _ nonempty]
  by_cases caret : before.head? = some '^'
  · obtain ⟨front, rfl⟩ := List.head?_eq_some_iff.1 caret
    refine ⟨front, ?_, fun backslash => unescaped ?_⟩
    · change (Anchored.ofRest ['^'] (front ++ suffix)).body = _
      rw [ofRest_of_getLast?_ne (notClosed front)]
    · rw [List.getLast?_cons, backslash]
      rfl
  · have headNotCaret : (before ++ suffix).head? ≠ some '^' := by
      cases before with
      | nil => exact noCaret
      | cons first before => exact caret
    refine ⟨before, ?_, unescaped⟩
    rw [ofPattern_of_head?_ne headNotCaret, ofRest_of_getLast?_ne (notClosed before)]

/-- A column list behind any prefix that does not escape its parenthesis declares a table with
exactly the listed columns, and nothing else is declared. -/
theorem columns_read_back {before gap trailing : Text} {columns : List Text}
    (unescaped : before.getLast? ≠ some '\\') (nonempty : columns ≠ [])
    (named : ∀ column ∈ columns, isColumnName column) (between : gap.all isBlank)
    (trails : trailing.all isBlank) :
    Pattern.arguments (before ++ parenthesised (columnListing columns) ++ gap ++ ':' :: trailing) =
      [tableArgument (some columns) 0] := by
  have list : IsColumnList (columnListing columns) gap trailing := by
    have bracketFree : (columnListing columns).all (· != '>') :=
      all_columnListing (by decide) (by simp +contextual [isColumnNameCharacter]) named
    refine ⟨all_columnListing (by decide) ?_ named, ?_, between, trails⟩
    · simp +contextual [isColumnNameCharacter, isColumnCharacter]
    · exact Text.notMem_of_all bracketFree (by decide)
  have declared : listedColumns (columnListing columns) = some columns := by
    rw [listedColumns, columnNames_columnListing nonempty named]
    simp [nonempty]
  have written : before ++ parenthesised (columnListing columns) ++ gap ++ ':' :: trailing =
      before ++ columnSuffix [] (columnListing columns) gap trailing := by
    simp [parenthesised, columnSuffix]
  have noDollar : (columnSuffix [] (columnListing columns) gap trailing).getLast? ≠ some '$' := by
    rw [columnSuffix_eq_append]
    exact getLast?_ne_of_trailing trails (by decide) (by decide)
  obtain ⟨front, body, frontUnescaped⟩ := exists_body_append unescaped
    (columnSuffix [] (columnListing columns) gap trailing) (List.cons_ne_nil _ _)
    (by simp [columnSuffix]) noDollar
  obtain ⟨raw, member⟩ := exists_table_of_list frontUnescaped list
  rw [← body, declared] at member
  rw [written]
  apply DeclaresTable.arguments
  apply declaresTable_of_mem
  exact List.mem_map_of_mem (f := fun token => token.piece) (mem_tokens_of_scan member)

/-- A group, braces, a bracket and a choice that are still open, and an escape. -/
def unfinishedPrefix : Text := "^I (see \x7bint <a: \\(b (x|".toList

/-- Columns with characters that are delimiters elsewhere. -/
def delimiterColumns : List Text := ["first name".toList, "{b}:".toList, "'c'$".toList]

theorem columns_read_back_unfinished :
    unfinishedPrefix.getLast? ≠ some '\\' ∧ (∀ column ∈ delimiterColumns, isColumnName column) ∧
      Pattern.arguments (unfinishedPrefix ++ parenthesised (columnListing delimiterColumns) ++
        "  ".toList ++ ':' :: " ".toList) = [tableArgument (some delimiterColumns) 0] := by
  have unescaped : unfinishedPrefix.getLast? ≠ some '\\' := by decide +kernel
  have named : ∀ column ∈ delimiterColumns, isColumnName column := by decide +kernel
  exact ⟨unescaped, named,
    columns_read_back unescaped (List.cons_ne_nil _ _) named (by decide) (by decide)⟩

end StepGrammar
