import StepGrammar.Regex.Reader

/-!
Contract: how the reader takes in literal text, choices and groups.

Owns one equation for each stretch of a written form: what the frames hold after the reader has
passed over it. The equations leave the rest of the form open, so a whole form is read by
rewriting with them from left to right.
-/

namespace StepGrammar.Regex

/-- A choice among expressions, empty where there are none. -/
def ofChoice : List Regex → Regex
  | [] => .empty
  | first :: rest => ofAlternatives first rest

def literalItems (text : Text) : List Regex := text.map fun character => .one (.only character)

def ofTexts (texts : List Text) : Regex := ofChoice (texts.map literal)

namespace Frame

def append (items : List Regex) (frame : Frame) : Frame :=
  { frame with items := items.reverse ++ frame.items }

@[simp] theorem append_nil (frame : Frame) : frame.append [] = frame := rfl

theorem push_eq_append (item : Regex) (frame : Frame) : frame.push item = frame.append [item] := rfl

@[simp] theorem append_append (first second : List Regex) (frame : Frame) :
    (frame.append first).append second = frame.append (first ++ second) := by
  simp [append]

theorem close_eq (frame : Frame) :
    frame.close =
      if frame.capturing then .capture (ofChoice (frame.alternatives.reverse ++ [frame.current]))
      else ofChoice (frame.alternatives.reverse ++ [frame.current]) := by
  unfold close
  rw [List.reverse_cons]
  cases frame.alternatives.reverse ++ [frame.current] <;> rfl

@[simp] theorem current_append_opened (items : List Regex) (capturing : Bool) :
    ((opened capturing).append items).current = ofSequence items := by
  simp [current, append, opened]

end Frame

/-! ## Literal text -/

theorem readItems_plain {character : Char} (plain : character ∉ metaCharacters) (frame : Frame)
    (outer : List Frame) (rest : Text) :
    readItems frame outer (character :: rest) =
      readItems (frame.push (.one (.only character))) outer rest := by
  simp only [metaCharacters, List.mem_cons, List.not_mem_nil, or_false, not_or] at plain
  rw [readItems.eq_def]
  split <;> simp_all

theorem readItems_escaped {character : Char} (isMeta : character ∈ metaCharacters) (frame : Frame)
    (outer : List Frame) (rest : Text) :
    readItems frame outer ('\\' :: character :: rest) =
      readItems (frame.push (.one (.only character))) outer rest := by
  have named : escapedClass? character = some (.only character) := by
    have all : metaCharacters.all fun character =>
        decide (escapedClass? character = some (.only character)) := by decide
    exact of_decide_eq_true (List.all_eq_true.1 all character isMeta)
  rw [readItems.eq_2, named]

/-- The written form of a literal text adds one item for each of its characters. -/
theorem readItems_escape (text : Text) (frame : Frame) (outer : List Frame) (rest : Text) :
    readItems frame outer (escape text ++ rest) =
      readItems (frame.append (literalItems text)) outer rest := by
  induction text generalizing frame with
  | nil => rfl
  | cons character others inductionHypothesis =>
      have oneMore : (frame.push (.one (.only character))).append (literalItems others) =
          frame.append (literalItems (character :: others)) := by
        rw [Frame.push_eq_append, Frame.append_append]
        rfl
      rw [← oneMore, ← inductionHypothesis]
      by_cases isMeta : character ∈ metaCharacters
      · rw [escape, if_pos (by simpa using isMeta)]
        exact readItems_escaped isMeta _ _ _
      · rw [escape, if_neg (by simpa using isMeta)]
        exact readItems_plain isMeta _ _ _

/-! ## Groups -/

theorem readItems_close (frame enclosing : Frame) (outer : List Frame) (rest : Text) :
    readItems frame (enclosing :: outer) (')' :: rest) =
      readItems (enclosing.push frame.close) outer rest := rfl

theorem readItems_bar (frame enclosing : Frame) (outer : List Frame) (rest : Text) :
    readItems frame (enclosing :: outer) ('|' :: rest) =
      readItems frame.nextAlternative (enclosing :: outer) rest := rfl

theorem readItems_end (frame : Frame) : readItems frame [] ['$'] = some frame.current := rfl

/-- The written forms of literal texts with bars between them complete the group in which they
stand. -/
theorem readItems_texts (first : Text) (more : List Text) (capturing : Bool)
    (alternatives : List Regex) (enclosing : Frame) (outer : List Frame) (rest : Text) :
    readItems ⟨capturing, alternatives, []⟩ (enclosing :: outer)
        (Text.join ['|'] ((first :: more).map escape) ++ ')' :: rest) =
      readItems
        (enclosing.push
          (if capturing then
            .capture (ofChoice (alternatives.reverse ++ (first :: more).map literal))
          else ofChoice (alternatives.reverse ++ (first :: more).map literal)))
        outer rest := by
  induction more generalizing first alternatives with
  | nil =>
      have single : Text.join ['|'] [escape first] = escape first := by
        simp [Text.join, List.intercalate]
      rw [List.map_singleton, single, readItems_escape, readItems_close, Frame.close_eq]
      simp [Frame.append, Frame.current, literal, literalItems]
  | cons next more inductionHypothesis =>
      have unfolded : Text.join ['|'] ((first :: next :: more).map escape) =
          escape first ++ '|' :: Text.join ['|'] ((next :: more).map escape) := by
        simp [Text.join, List.intercalate]
      rw [unfolded, List.append_assoc, readItems_escape, List.cons_append, readItems_bar]
      have turned :
          (Frame.append (literalItems first) ⟨capturing, alternatives, []⟩).nextAlternative =
            ⟨capturing, literal first :: alternatives, []⟩ := by
        simp [Frame.nextAlternative, Frame.append, Frame.current, literal, literalItems]
      rw [turned, inductionHypothesis]
      simp

/-- A question mark makes the group before it optional, unless that group is empty. -/
theorem readItems_optional {items : List Regex} (nonempty : items ≠ []) (frame : Frame)
    (outer : List Frame) (rest : Text) :
    readItems (frame.push (ofSequence items)) outer ('?' :: rest) =
      readItems (frame.push (.option (ofSequence items))) outer rest := by
  cases items with
  | nil => exact absurd rfl nonempty
  | cons item others => rfl

end StepGrammar.Regex
