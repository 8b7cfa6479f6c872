import StepGrammar.Proofs.Matching.Reading
import StepGrammar.Proofs.Resolve.RoundTrip

/-!
Contract: putting the values of a match back into the pattern gives the text that was matched.

Where parameters stand next to each other, a text can be cut between them in more than one way.
The values of a match are then not determined by the text, so no statement about the preferred way
helps here. Instead every way to match cuts the text into the captured pieces and the literal text
between them, in the order of the tokens.
-/

namespace StepGrammar

open Regex

/-- Whether a piece writes its capture back as it stood. Strings are quoted anew, a chain of words
writes its first word, and optional groups are always written. -/
def Piece.isVerbatim : Piece → Bool
  | .anchor | .text _ | .escape _ | .outline _ | .enum _ | .anonymous => true
  | .parameter type _ => type != .string
  | _ => false

/-! ## The captures cut the text -/

/-- A piece that writes its capture back as it stood writes every stretch that it spells. -/
theorem resolve_of_spells {piece : Piece} (verbatim : piece.isVerbatim)
    (filled : ∀ listed, piece = .enum listed → [] ∉ listed) {stretch : Text}
    (spells : piece.Spells stretch) :
    piece.resolve (if piece.isCaptured then some stretch else none) = stretch := by
  cases piece with
  | anchor | text | escape | outline => exact spells.symm
  | enum listed =>
      cases stretch with
      | nil => exact absurd spells (filled listed rfl)
      | cons first rest => rfl
  | parameter type name =>
      have notString : type ≠ .string := bne_iff_ne.1 verbatim
      simp [Piece.resolve, Piece.isCaptured, ParameterType.written, notString]
  | anonymous => rfl
  | _ => exact absurd verbatim Bool.false_ne_true

/-- Every way to match captures values with which the pieces resolve to the text consumed. -/
theorem exists_values_of_mem_parses {pieces : List Piece}
    (verbatim : ∀ piece ∈ pieces, piece.isVerbatim)
    (filled : ∀ listed, .enum listed ∈ pieces → listed ≠ [] ∧ [] ∉ listed) {text : Text}
    {parse : Captures × Text}
    (member : parse ∈ (ofSequence (pieces.flatMap Piece.items)).parses text) :
    ∃ values, parse.1 = values.map some ∧ values.length = pieces.countP Piece.isCaptured ∧
      text = substitute pieces values ++ parse.2 := by
  induction pieces generalizing text parse with
  | nil =>
      obtain rfl := List.mem_singleton.1 member
      exact ⟨[], rfl, rfl, rfl⟩
  | cons piece later inductionHypothesis =>
      obtain ⟨headVerbatim, laterVerbatim⟩ := List.forall_mem_cons.1 verbatim
      have laterFilled : ∀ listed, .enum listed ∈ later → listed ≠ [] ∧ [] ∉ listed :=
        fun listed inLater => filled listed (List.mem_cons_of_mem _ inLater)
      have standsAlone : piece ≠ .optionalOpen ∧ piece ≠ .optionalClose := by
        constructor <;> rintro rfl <;> exact absurd headVerbatim Bool.false_ne_true
      have headFilled : ∀ listed, piece = .enum listed → listed ≠ [] ∧ [] ∉ listed :=
        fun listed same => filled listed (same ▸ List.mem_cons_self)
      have listFilled : ∀ listed, piece = .enum listed ∨ piece = .alternatives listed →
          listed ≠ [] := by
        rintro listed (same | rfl)
        · exact (headFilled listed same).1
        · exact absurd headVerbatim Bool.false_ne_true
      rw [List.flatMap_cons] at member
      obtain ⟨stretch, behind, captures, rfl, spells, recorded, rest⟩ :=
        readsFirst_of_mem_parses standsAlone listFilled member
      obtain ⟨values, sameCaptures, count, rfl⟩ := inductionHypothesis laterVerbatim laterFilled rest
      have rewritten := resolve_of_spells headVerbatim
        (fun listed same => (headFilled listed same).2) spells
      change captures = values.map some at sameCaptures
      by_cases captured : piece.isCaptured
      · rw [if_pos captured] at rewritten
        refine ⟨stretch :: values, ?_, ?_, ?_⟩
        · rw [recorded, sameCaptures]
          simp [readingCaptures, captured]
        · rw [List.length_cons, count, List.countP_cons_of_pos captured]
        · rw [substitute, if_pos captured, List.head?_cons, List.tail_cons, rewritten,
            List.append_assoc]
      · rw [if_neg captured] at rewritten
        refine ⟨values, ?_, ?_, ?_⟩
        · rw [recorded, sameCaptures]
          simp [readingCaptures, captured]
        · rw [count, List.countP_cons_of_neg captured]
        · rw [substitute, if_neg captured, rewritten, List.append_assoc]

/-! ## The values of a match -/

/-- A match records what the groups of the pattern captured. -/
theorem exists_captures_of_matchStep? {text : Text} {definition : StepDefinition}
    {result : MatchResult} (matched : matchStep? text definition = some result) :
    ∃ captures, definition.pattern.expression.fullMatch? text = some captures ∧
      result.args =
        bindCaptures definition.args (captures.map fun capture => capture.getD []) := by
  obtain ⟨captures, -, found, bound⟩ := captures?_of_matchStep? matched
  rw [captures?_eq_fullMatch?] at found
  exact ⟨captures, found, bound⟩

/-- Captures of arguments that are neither tables nor strings are their values. -/
theorem bindCaptures_eq_zipWith {definitions : List ArgumentDefinition} {captures : List Text}
    (plain : ∀ definition ∈ definitions,
      definition.type.isCaptured ∧ definition.type ≠ .parameter .string)
    (sameLength : definitions.length = captures.length) :
    bindCaptures definitions captures = List.zipWith ConcreteArg.mk definitions captures := by
  induction definitions generalizing captures with
  | nil => rfl
  | cons definition rest inductionHypothesis =>
      obtain ⟨⟨isCaptured, notString⟩, restPlain⟩ := List.forall_mem_cons.1 plain
      cases captures with
      | nil => simp at sameLength
      | cons capture captures =>
          rw [bindCaptures, if_pos isCaptured, ArgType.readCapture, if_neg notString,
            List.headD_cons, List.tail_cons,
            inductionHypothesis restPlain (Nat.succ.inj sameLength), List.zipWith_cons_cons]

theorem plain_of_mem_declaredTypes {pieces : List Piece}
    (verbatim : ∀ piece ∈ pieces, piece.isVerbatim) {type : ArgType}
    (member : type ∈ declaredTypes pieces) : type.isCaptured ∧ type ≠ .parameter .string := by
  obtain ⟨declaration, declared, rfl⟩ := List.mem_map.1 member
  obtain ⟨piece, pieceMember, declares⟩ := List.mem_filterMap.1 declared
  have pieceVerbatim := verbatim piece pieceMember
  cases piece with
  | enum listed =>
      obtain rfl := Option.some.inj declares
      simp [ArgType.isCaptured]
  | parameter own name =>
      obtain rfl := Option.some.inj declares
      have notString : own ≠ .string := bne_iff_ne.1 pieceVerbatim
      exact ⟨rfl, fun same => notString (ArgType.parameter.inj same)⟩
  | anonymous =>
      obtain rfl := Option.some.inj declares
      simp [ArgType.isCaptured]
  | _ => simp [Piece.inlineDeclaration?, Piece.isTable, Piece.declaration?] at declares

/-- Matching a text and resolving the pattern with the values of the match gives the text back,
also where parameters stand next to each other. -/
theorem resolve_match {pattern : Pattern} {text id : Text} {keyword : StepKeyword}
    {result : MatchResult} (verbatim : ∀ piece ∈ pattern.pieces, piece.isVerbatim)
    (matched : matchStep? text (.ofPattern id pattern keyword) = some result) :
    pattern.resolve result.args = text := by
  have ungrouped : .optionalOpen ∉ pattern.pieces := fun member =>
    absurd (verbatim _ member) Bool.false_ne_true
  have tableFree : endsInTable pattern.tokens = false := by
    apply not_endsInTable_of_not_isTable
    intro piece member isTable
    have pieceVerbatim := verbatim piece member
    cases piece with
    | table columns => exact absurd pieceVerbatim Bool.false_ne_true
    | _ => exact absurd isTable Bool.false_ne_true
  have filled : ∀ listed, .enum listed ∈ pattern.pieces → listed ≠ [] ∧ [] ∉ listed :=
    fun _ => filled_of_mem_pieces
  obtain ⟨captures, found, bound⟩ := exists_captures_of_matchStep? matched
  have parsed := mem_parses_of_fullMatch? found
  have expression : (StepDefinition.ofPattern id pattern keyword).pattern.expression =
      ofSequence (pattern.pieces.flatMap Piece.items) := expression_eq_items ungrouped
  rw [expression] at parsed
  obtain ⟨values, rfl, count, split⟩ := exists_values_of_mem_parses verbatim filled parsed
  have sameLength : pattern.arguments.length = values.length := by
    rw [(arguments_of_not_endsInTable tableFree).1, (takenFrom_groupBodies pattern).length_eq,
      length_groupBodies, groups_expression, Pattern.pieces, count]
    rfl
  have plain : ∀ definition ∈ pattern.arguments,
      definition.type.isCaptured ∧ definition.type ≠ .parameter .string := by
    intro definition member
    apply plain_of_mem_declaredTypes verbatim
    rw [← map_type_arguments tableFree]
    exact List.mem_map_of_mem member
  have args : result.args = pattern.argumentsWith values := by
    rw [bound, map_getD_map_some]
    exact bindCaptures_eq_zipWith plain sameLength
  rw [args, resolve_argumentsWith tableFree sameLength]
  exact (split.trans (List.append_nil _)).symm

/-- A pattern whose text can be cut between its parameters in more than one way. -/
def orderPattern : Pattern := "^take (a|ab){word}{int}{} <row> \\(x\\){float}$".toList

theorem resolve_match_order :
    ∃ result,
      matchStep? "take abc12 more <row> (x)-1.5".toList (.ofPattern [] orderPattern .givenStep) =
        some result ∧
      result.values =
        ["a".toList, "bc1".toList, "2".toList, " more".toList, "-1.5".toList] ∧
      orderPattern.resolve result.args = "take abc12 more <row> (x)-1.5".toList := by
  have found : ((matchStep? "take abc12 more <row> (x)-1.5".toList
      (.ofPattern [] orderPattern .givenStep)).map MatchResult.values) =
        some ["a".toList, "bc1".toList, "2".toList, " more".toList, "-1.5".toList] := by
    decide +kernel
  obtain ⟨result, matched, values⟩ := Option.map_eq_some_iff.1 found
  exact ⟨result, matched, values, resolve_match (by decide +kernel) matched⟩

end StepGrammar
