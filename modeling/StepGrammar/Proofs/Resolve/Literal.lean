import Mathlib.Data.List.Flatten
import StepGrammar.Proofs.Pattern.Escaping
import StepGrammar.Proofs.Pattern.Tiling
import StepGrammar.Proofs.Pattern.UnitViews
import StepGrammar.Proofs.Resolve.Acceptance

/-!
Contract: a pattern without arguments, groups and alternatives resolves to its literal text.

The literal text is read off the characters: the backslash of every escape is dropped, but a
reference to a column of an outline stands for itself, backslashes included. The tokens of such a
pattern are plain text, escapes and references, so `IsLiteral` ties its units to its characters by
one rule for each of the three.
-/

namespace StepGrammar

/-! ## Literal text -/

/-- The text with the backslash of every escape outside outline references dropped, where the first
`kept` characters are kept as they are. -/
def literalFrom : (kept : Nat) → Text → Text
  | _, [] => []
  | kept + 1, character :: rest => character :: literalFrom kept rest
  | 0, character :: rest =>
    match outlineName? (character :: rest) with
    | some name => character :: literalFrom (name.length + 1) rest
    | none =>
      if character = '\\' ∧ rest.head?.any isEscapable then literalFrom 1 rest
      else character :: literalFrom 0 rest

/-- The text with the backslash of every escape outside outline references dropped. -/
def literalText (text : Text) : Text := literalFrom 0 text

theorem literalFrom_append (front behind : Text) :
    literalFrom front.length (front ++ behind) = front ++ literalText behind := by
  induction front with
  | nil => rfl
  | cons character rest inductionHypothesis =>
      rw [List.length_cons, List.cons_append, literalFrom, inductionHypothesis, List.cons_append]

variable {character : Char} {text : Text}

theorem literalText_plain (kept : character ≠ '\\' ∨ text.head?.any isEscapable = false)
    (noReference : outlineName? (character :: text) = none) :
    literalText (character :: text) = character :: literalText text := by
  rw [literalText, literalFrom, noReference]
  apply if_neg
  rintro ⟨backslash, escaped⟩
  rcases kept with different | plain
  · exact different backslash
  · exact absurd escaped (plain ▸ Bool.false_ne_true)

theorem literalText_escape (escapable : isEscapable character) :
    literalText ('\\' :: character :: text) = character :: literalText text := by
  have noReference : outlineName? ('\\' :: character :: text) = none :=
    outlineName?_eq_none (by decide)
  rw [literalText, literalFrom, noReference]
  exact if_pos ⟨rfl, escapable⟩

theorem literalText_outline {name : Text} (bracketFree : name.all isOutlineCharacter)
    (starts : name.head?.any fun first => !isBlank first) :
    literalText (outlineReference name ++ text) = outlineReference name ++ literalText text := by
  have named : outlineName? (outlineReference name ++ text) = some name :=
    outlineName?_eq_some_iff.2 ⟨text, rfl, bracketFree, starts⟩
  have kept : literalFrom (name.length + 1) (name ++ ['>'] ++ text) =
      name ++ ['>'] ++ literalText text := by
    rw [← literalFrom_append, List.length_append, List.length_singleton]
  show literalFrom 0 ('<' :: (name ++ ['>'] ++ text)) = '<' :: (name ++ ['>'] ++ literalText text)
  change outlineName? ('<' :: (name ++ ['>'] ++ text)) = some name at named
  rw [literalFrom, named, ← kept]

/-! ## Escapes dropped everywhere -/

theorem unescape_outlineReference (name : Text) :
    unescape (outlineReference name) = outlineReference (unescape name) := by
  have opens : '<' ≠ '\\' := by decide
  rw [outlineReference, List.cons_append, unescape_cons (Or.inl opens),
    unescape_append (Or.inr (by decide))]
  rfl

theorem outlineReference_inj {first second : Text} :
    outlineReference first = outlineReference second ↔ first = second := by
  simp [outlineReference]

/-- Dropping something from the items leaves the whole as it was only if it leaves each item. -/
theorem flatMap_eq_iff_of_sublist {α β : Type} {items : List α} {whole rest : α → List β}
    (sublist : ∀ item, (rest item).Sublist (whole item)) :
    items.flatMap whole = items.flatMap rest ↔ ∀ item ∈ items, rest item = whole item := by
  refine ⟨fun same => ?_, fun each => (List.flatMap_congr each).symm⟩
  induction items with
  | nil => simp
  | cons item items inductionHypothesis =>
      rw [List.flatMap_cons, List.flatMap_cons] at same
      have shorter : (rest item).length ≤ (whole item).length := (sublist item).length_le
      have behindShorter : (items.flatMap rest).length ≤ (items.flatMap whole).length :=
        (List.Sublist.flatMap_right items fun item _ => sublist item).length_le
      have lengths := congrArg List.length same
      rw [List.length_append, List.length_append] at lengths
      have own : rest item = whole item := (sublist item).eq_of_length (by omega)
      rw [own] at same
      exact List.forall_mem_cons.2 ⟨own, inductionHypothesis (List.append_cancel_left same)⟩

/-! ## Bodies of plain text, escapes and references -/

/-- Whether a text without arguments, groups and chains of words is read as the given units. -/
inductive IsLiteral : Text → List Piece → Prop
  | nil : IsLiteral [] []
  | plain {character : Char} {text : Text} {units : List Piece}
      (kept : character ≠ '\\' ∨ text.head?.any isEscapable = false)
      (noReference : outlineName? (character :: text) = none) (later : IsLiteral text units) :
      IsLiteral (character :: text) (.escape character :: units)
  | escape {character : Char} {text : Text} {units : List Piece} (escapable : isEscapable character)
      (later : IsLiteral text units) :
      IsLiteral ('\\' :: character :: text) (.escape character :: units)
  | outline {name text : Text} {units : List Piece} (bracketFree : name.all isOutlineCharacter)
      (starts : name.head?.any fun first => !isBlank first) (later : IsLiteral text units) :
      IsLiteral (outlineReference name ++ text) (.outline name :: units)

namespace IsLiteral

variable {units : List Piece}

theorem flatMap_resolve (literal : IsLiteral text units) :
    units.flatMap (Piece.resolve none) = literalText text := by
  induction literal with
  | nil => rfl
  | plain kept noReference _ inductionHypothesis =>
      rw [List.flatMap_cons, inductionHypothesis, literalText_plain kept noReference]
      rfl
  | escape escapable _ inductionHypothesis =>
      rw [List.flatMap_cons, inductionHypothesis, literalText_escape escapable]
      rfl
  | outline bracketFree starts _ inductionHypothesis =>
      rw [List.flatMap_cons, inductionHypothesis, literalText_outline bracketFree starts]
      rfl

theorem flatMap_unescape (literal : IsLiteral text units) :
    units.flatMap (fun unit => unescape (unit.resolve none)) = unescape text := by
  induction literal with
  | nil => rfl
  | plain kept _ _ inductionHypothesis =>
      rw [List.flatMap_cons, inductionHypothesis, unescape_cons kept]
      rfl
  | escape escapable _ inductionHypothesis =>
      rw [List.flatMap_cons, inductionHypothesis, unescape, escapable]
      rfl
  | outline _ _ _ inductionHypothesis =>
      rw [List.flatMap_cons, inductionHypothesis, unescape_append (Or.inl ?_)]
      · rfl
      · rw [outlineReference, List.getLast?_concat]
        decide

/-- A unit is left as it is when its escapes are dropped, but for references that hold escapes. -/
theorem unescape_resolve_iff (literal : IsLiteral text units) :
    (∀ unit ∈ units, unescape (unit.resolve none) = unit.resolve none) ↔
      ∀ name, .outline name ∈ units → unescape name = name := by
  induction literal with
  | nil => simp
  | plain _ _ _ inductionHypothesis | escape _ _ inductionHypothesis =>
      rw [List.forall_mem_cons, inductionHypothesis]
      simp [unescape, Piece.resolve]
  | outline _ _ _ inductionHypothesis =>
      rw [List.forall_mem_cons, inductionHypothesis, Piece.resolve, unescape_outlineReference,
        outlineReference_inj]
      simp [or_imp, forall_and]

end IsLiteral

/-! ## What a body is read as -/

/-- Whether a piece declares no argument, opens no group and gives no choice of words. -/
def Piece.isFixed : Piece → Bool
  | .anchor | .text _ | .escape _ | .optionalClose | .outline _ => true
  | _ => false

theorem not_written_of_part?_eq_none {previous : Option Char}
    (nothing : part? previous (character :: text) = none) :
    (character ≠ '\\' ∨ text.head?.any isEscapable = false) ∧
      outlineName? (character :: text) = none := by
  simp only [part?, Option.orElse_eq_orElse, Option.orElse_eq_or, Option.or_eq_none_iff,
    Option.map_eq_none_iff] at nothing
  obtain ⟨noEscape, -, -, -, -, -, -, noReference⟩ := nothing
  refine ⟨?_, by simpa [outline?] using noReference⟩
  cases text with
  | nil => exact Or.inr rfl
  | cons second rest =>
      by_cases backslash : character = '\\'
      · refine Or.inr (eq_false_of_ne_true fun escapable => ?_)
        simp_all [escape?]
      · exact Or.inl backslash

theorem mem_unitsFrom_of_found {previous : Option Char} {found : Found Part}
    (recognised : part? previous (character :: text) = some found) {unit : Piece}
    (member : unit ∈ found.value.tokens.flatMap fun token => token.piece.units) :
    unit ∈ unitsFrom previous (character :: text) := by
  rw [unitsFrom, scanFrom, recognised]
  show unit ∈ (found.value.tokens ++ _).flatMap _
  rw [List.flatMap_append]
  exact List.mem_append_left _ member

/-- A construct without argument, group and choice is an escape or a reference. -/
theorem Part.IsWritten.eq_of_isFixed {part : Part} {stretch behind : Text}
    (written : part.IsWritten stretch behind)
    (fixed : ∀ unit ∈ part.tokens.flatMap (fun token => token.piece.units), unit.isFixed) :
    (∃ escaped, stretch = ['\\', escaped] ∧ isEscapable escaped) ∨
      ∃ name, stretch = outlineReference name ∧ name.all isOutlineCharacter ∧
        name.head?.any fun first => !isBlank first := by
  cases written with
  | escape escapable => exact Or.inl ⟨_, rfl, escapable⟩
  | outline bracketFree starts => exact Or.inr ⟨_, rfl, bracketFree, starts⟩
  | _ => exact absurd (fixed _ List.mem_cons_self) Bool.false_ne_true

theorem unitsFrom_outlineReference {previous : Option Char} {name : Text}
    (bracketFree : name.all isOutlineCharacter)
    (starts : name.head?.any fun first => !isBlank first) :
    unitsFrom previous (outlineReference name ++ text) =
      .outline name :: unitsFrom (some '>') text := by
  have shape : outlineReference name ++ text = '<' :: (name ++ '>' :: text) := by
    simp [outlineReference]
  rw [shape]
  exact unitsFrom_outline bracketFree starts

/-- Where nothing but fixed units is read from a position on, the text is literal from there. -/
theorem isLiteral_unitsFrom {previous : Option Char}
    (fixed : ∀ unit ∈ unitsFrom previous text, unit.isFixed) :
    IsLiteral text (unitsFrom previous text) := by
  induction size : text.length using Nat.strongRecOn generalizing text previous with
  | _ size inductionHypothesis =>
      subst size
      cases text with
      | nil => exact .nil
      | cons character rest =>
          cases recognised : part? previous (character :: rest) with
          | none =>
              obtain ⟨kept, noReference⟩ := not_written_of_part?_eq_none recognised
              rw [unitsFrom_of_none recognised] at fixed ⊢
              exact .plain kept noReference (inductionHypothesis rest.length (by simp)
                (List.forall_mem_cons.1 fixed).2 rfl)
          | some found =>
              obtain ⟨stretch, behind, split, -, written⟩ := part?_isWritten recognised
              have smaller : behind.length < (character :: rest).length := by
                rw [split, List.length_append]
                exact Nat.lt_add_of_pos_left (List.length_pos_of_ne_nil written.ne_nil)
              rcases written.eq_of_isFixed fun unit member =>
                  fixed unit (mem_unitsFrom_of_found recognised member) with
                ⟨escaped, rfl, escapable⟩ | ⟨name, rfl, bracketFree, starts⟩
              · have units : unitsFrom previous (['\\', escaped] ++ behind) =
                    .escape escaped :: unitsFrom (some escaped) behind := unitsFrom_escape escapable
                rw [split, units] at fixed ⊢
                exact .escape escapable (inductionHypothesis _ smaller
                  (List.forall_mem_cons.1 fixed).2 rfl)
              · rw [split, unitsFrom_outlineReference bracketFree starts] at fixed ⊢
                exact .outline bracketFree starts (inductionHypothesis _ smaller
                  (List.forall_mem_cons.1 fixed).2 rfl)

/-! ## Patterns without arguments -/

variable {pattern : Pattern}

theorem isFixed_of_mem_pieces (nothing : pattern.arguments = [])
    (ungrouped : .optionalOpen ∉ pattern.pieces)
    (chainFree : ∀ words, .alternatives words ∉ pattern.pieces) {piece : Piece}
    (member : piece ∈ pattern.pieces) : piece.isFixed := by
  have tableFree : endsInTable pattern.tokens = false := by
    refine eq_false_of_ne_true fun ends => ?_
    obtain ⟨columns, -, declared, -⟩ := arguments_of_endsInTable ends
    rw [declared] at nothing
    exact List.cons_ne_nil _ _ nothing
  have notTable : ¬piece.isTable := by
    obtain ⟨token, tokenMember, rfl⟩ := List.mem_map.1 member
    exact not_isTable_of_not_endsInTable tableFree tokenMember
  rw [(arguments_of_not_endsInTable tableFree).1] at nothing
  have uncaptured := not_isCaptured_of_inlineArguments_eq_nil nothing member
  cases piece with
  | table columns => exact absurd rfl notTable
  | optionalOpen => exact absurd member ungrouped
  | alternatives words => exact absurd member (chainFree words)
  | enum | parameter | anonymous => exact absurd rfl uncaptured
  | _ => rfl

theorem not_isCaptured_of_isFixed {piece : Piece} (fixed : piece.isFixed) : ¬piece.isCaptured := by
  cases piece with
  | enum | parameter | anonymous => exact absurd fixed Bool.false_ne_true
  | _ => exact Bool.false_ne_true

theorem isFixed_of_mem_units {piece unit : Piece} (fixed : piece.isFixed)
    (member : unit ∈ piece.units) : unit.isFixed := by
  cases piece with
  | text characters =>
      obtain ⟨character, -, rfl⟩ := List.mem_map.1 member
      rfl
  | _ => exact List.mem_singleton.1 member ▸ fixed

/-- Outside the anchors, the units of a pattern are those of its body. -/
theorem units_eq (pattern : Pattern) :
    ∃ opening closing, pattern.units =
        opening ++ unitsFrom none (Anchored.ofPattern pattern).body ++ closing ∧
      (∀ unit ∈ opening, unit = .anchor) ∧ ∀ unit ∈ closing, unit = .anchor := by
  have anchors (raw : Text) : ∀ unit ∈ ((anchorParts raw).flatMap Part.tokens).flatMap
      (fun token => token.piece.units), unit = .anchor := by
    intro unit member
    obtain ⟨token, tokenMember, unitMember⟩ := List.mem_flatMap.1 member
    rw [piece_of_mem_anchorTokens tokenMember] at unitMember
    exact List.mem_singleton.1 unitMember
  refine ⟨_, _, ?_, anchors (Anchored.ofPattern pattern).opening,
    anchors (Anchored.ofPattern pattern).closing⟩
  simp only [Pattern.units, Pattern.pieces, Pattern.tokens, Pattern.parts, List.flatMap_map,
    List.flatMap_append, unitsFrom, bodyParts, scan]

/-- A view that shows nothing of an anchor shows of a pattern what it shows of its body. -/
theorem flatMap_units_eq {view : Piece → Text} (silent : view .anchor = []) (pattern : Pattern) :
    pattern.units.flatMap view =
      (unitsFrom none (Anchored.ofPattern pattern).body).flatMap view := by
  obtain ⟨opening, closing, units, opens, closes⟩ := units_eq pattern
  have nothing {anchors : List Piece} (only : ∀ unit ∈ anchors, unit = .anchor) :
      anchors.flatMap view = [] :=
    List.flatMap_eq_nil_iff.2 fun unit member => by rw [only unit member, silent]
  rw [units, List.flatMap_append, List.flatMap_append, nothing opens, nothing closes,
    List.nil_append, List.append_nil]

theorem flatMap_resolve_units (piece : Piece) :
    piece.units.flatMap (Piece.resolve none) = piece.resolve none := by
  cases piece with
  | text characters => simp [Piece.units, Piece.resolve, List.flatMap_map]
  | _ => exact List.append_nil _

theorem substitute_of_not_isCaptured {pieces : List Piece}
    (uncaptured : ∀ piece ∈ pieces, ¬piece.isCaptured) :
    substitute pieces [] = pieces.flatMap (Piece.resolve none) := by
  induction pieces with
  | nil => rfl
  | cons piece later inductionHypothesis =>
      obtain ⟨head, tail⟩ := List.forall_mem_cons.1 uncaptured
      rw [substitute, if_neg head, inductionHypothesis tail, List.flatMap_cons]

/-- Without arguments, what a pattern resolves to does not depend on the values. -/
theorem resolve_eq_flatMap_units (uncaptured : ∀ piece ∈ pattern.pieces, ¬piece.isCaptured)
    (values : List ConcreteArg) :
    pattern.resolve values = pattern.units.flatMap (Piece.resolve none) := by
  calc pattern.resolve values = substitute pattern.pieces [] :=
        resolvePieces_allocate_of_not_isCaptured uncaptured values
    _ = pattern.pieces.flatMap (Piece.resolve none) := substitute_of_not_isCaptured uncaptured
    _ = pattern.units.flatMap (Piece.resolve none) := by
        rw [Pattern.units, List.flatMap_assoc]
        simp only [flatMap_resolve_units]

theorem outline_mem_pieces_iff {name : Text} :
    .outline name ∈ pattern.pieces ↔
      .outline name ∈ unitsFrom none (Anchored.ofPattern pattern).body := by
  have inUnits : .outline name ∈ pattern.units ↔ .outline name ∈ pattern.pieces := by
    have single (piece : Piece) : .outline name ∈ piece.units ↔ piece = .outline name := by
      cases piece <;> simp [Piece.units, eq_comm]
    simp [Pattern.units, List.mem_flatMap, single]
  obtain ⟨opening, closing, units, opens, closes⟩ := units_eq pattern
  have outside {anchors : List Piece} (only : ∀ unit ∈ anchors, unit = .anchor) :
      .outline name ∉ anchors := fun member => by simpa using only _ member
  rw [← inUnits, units, List.mem_append, List.mem_append, or_iff_left (outside closes),
    or_iff_right (outside opens)]

/-- A pattern without arguments, optional groups and alternatives resolves to its literal text,
whatever the values. This is its body, as `ofPattern_eq_iff` describes it, with every escape dropped
exactly if no outline reference holds an escape. -/
theorem resolve_literal (nothing : pattern.arguments = [])
    (ungrouped : .optionalOpen ∉ pattern.pieces)
    (chainFree : ∀ words, .alternatives words ∉ pattern.pieces) (values : List ConcreteArg) :
    pattern.resolve values = literalText (Anchored.ofPattern pattern).body ∧
      (pattern.resolve values = unescape (Anchored.ofPattern pattern).body ↔
        ∀ name, .outline name ∈ pattern.pieces → unescape name = name) := by
  have fixed : ∀ piece ∈ pattern.pieces, piece.isFixed := fun _ =>
    isFixed_of_mem_pieces nothing ungrouped chainFree
  have literal : IsLiteral (Anchored.ofPattern pattern).body
      (unitsFrom none (Anchored.ofPattern pattern).body) := by
    apply isLiteral_unitsFrom
    intro unit member
    obtain ⟨opening, closing, units, -, -⟩ := units_eq pattern
    have inUnits : unit ∈ pattern.units := by simp [units, member]
    obtain ⟨piece, pieceMember, unitMember⟩ := List.mem_flatMap.1 inUnits
    exact isFixed_of_mem_units (fixed piece pieceMember) unitMember
  have resolved : pattern.resolve values =
      (unitsFrom none (Anchored.ofPattern pattern).body).flatMap (Piece.resolve none) := by
    rw [resolve_eq_flatMap_units fun piece member => not_isCaptured_of_isFixed (fixed piece member)]
    exact flatMap_units_eq rfl pattern
  have sublist (unit : Piece) : (unescape (unit.resolve none)).Sublist (unit.resolve none) :=
    unescape_sublist _
  refine ⟨resolved.trans literal.flatMap_resolve, ?_⟩
  rw [resolved, ← literal.flatMap_unescape, flatMap_eq_iff_of_sublist sublist,
    literal.unescape_resolve_iff]
  simp only [outline_mem_pieces_iff]

/-- A pattern with escapes, references and constructs that were begun but not finished. -/
def netPattern : Pattern := "^a \\(net\\) {sum} of <k\\:d> (or <n> \\a\\$$".toList

theorem resolve_literal_net :
    netPattern.resolve [.typed .enum "x".toList] = "a (net) {sum} of <k\\:d> (or <n> \\a$".toList ∧
      netPattern.resolve [.typed .enum "x".toList] ≠
        unescape (Anchored.ofPattern netPattern).body := by
  have pieces : netPattern.pieces = [.anchor, .text "a ".toList, .escape '(', .text "net".toList,
      .escape ')', .text " {sum} of ".toList, .outline "k\\:d".toList, .text " (or ".toList,
      .outline "n".toList, .text " \\a".toList, .escape '$', .anchor] := by decide +kernel
  have nothing : netPattern.arguments = [] := by decide +kernel
  have ungrouped : .optionalOpen ∉ netPattern.pieces := by simp [pieces]
  have chainFree : ∀ words, .alternatives words ∉ netPattern.pieces := by simp [pieces]
  obtain ⟨resolved, plain⟩ :=
    resolve_literal nothing ungrouped chainFree [.typed .enum "x".toList]
  refine ⟨resolved.trans (by decide +kernel), fun same => ?_⟩
  have kept := plain.1 same "k\\:d".toList (by simp [pieces])
  exact absurd kept (by decide)

def referencePattern : Pattern := "<\\(x>".toList

theorem resolve_keeps_reference :
    referencePattern.arguments = [] ∧ referencePattern.pieces = [.outline "\\(x".toList] ∧
      referencePattern.resolve [] ≠ unescape (Anchored.ofPattern referencePattern).body := by
  decide +kernel

end StepGrammar
