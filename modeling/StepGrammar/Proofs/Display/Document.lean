import StepGrammar.Proofs.Display.Markup
import StepGrammar.Proofs.Pattern.Tokens

/-!
Contract: a displayed pattern is a document, and it says the same as the plain text.

A document consists of written text, spans of arguments, spans of alternatives, and spans of optional
groups, which hold text and arguments only. The span of a group is opened by one token and closed by
another; both belong to one part of the pattern, so a part becomes whole nodes of the document.
-/

namespace StepGrammar

namespace Markup

/-! ## Documents -/

/-- The span of an argument: the type, the position and the written label. -/
structure Argument where
  type : ArgType
  index : Nat
  label : Text
deriving DecidableEq, Repr

def Argument.ofDescription (description : ArgDescription) : Argument :=
  ⟨description.type, description.index, escape description.name⟩

/-- What may stand in the span of an optional group. -/
inductive Leaf where
  | text (written : Text)
  | argument (argument : Argument)
deriving DecidableEq, Repr

inductive Node where
  | leaf (leaf : Leaf)
  | alternatives (written : Text)
  | optional (body : List Leaf)
deriving DecidableEq, Repr

namespace Leaf

def written : Leaf → Text
  | .text written => written
  | .argument shown =>
    '<' :: (argumentTag shown.type shown.index ++ '>' :: (shown.label ++ "</span>".toList))

theorem written_text (text : Text) : (Leaf.text text).written = text := rfl

def WellFormed : Leaf → Prop
  | .text written => IsText written
  | .argument shown => IsText shown.label

def argument? : Leaf → Option Argument
  | .text _ => none
  | .argument shown => some shown

end Leaf

namespace Node

def written : Node → Text
  | .leaf inner => inner.written
  | .alternatives written => "<span class=\"step-alternatives\">".toList ++ written ++
      "</span>".toList
  | .optional body => "<span class=\"step-optional\">".toList ++ body.flatMap Leaf.written ++
      "</span>".toList

theorem written_optional (body : List Leaf) :
    (Node.optional body).written =
      "<span class=\"step-optional\">".toList ++ body.flatMap Leaf.written ++ "</span>".toList :=
  rfl

def WellFormed : Node → Prop
  | .leaf inner => inner.WellFormed
  | .alternatives written => IsText written
  | .optional body => ∀ leaf ∈ body, leaf.WellFormed

def arguments : Node → List Argument
  | .leaf inner => inner.argument?.toList
  | .alternatives _ => []
  | .optional body => body.filterMap Leaf.argument?

end Node

end Markup

open Markup

/-! ## Labels -/

def labelAt (index : Nat) (token : Token) : LabelledToken :=
  ⟨token, token.piece.declaration?.map fun declaration => (index, declaration.define index)⟩

def LabelledToken.argument? (labelled : LabelledToken) : Option Markup.Argument :=
  labelled.label.map fun label => .ofDescription (.ofLabel label)

theorem exists_labelFrom_cons (index : Nat) (token : Token) :
    ∃ next, ∀ rest, labelFrom index (token :: rest) = labelAt index token :: labelFrom next rest := by
  cases declares : token.piece.declaration? with
  | none => exact ⟨index, fun rest => by rw [labelFrom, labelAt, declares]; rfl⟩
  | some declaration => exact ⟨index + 1, fun rest => by rw [labelFrom, labelAt, declares]; rfl⟩

theorem exists_labelFrom_append (index : Nat) (front : List Token) :
    ∃ next, ∀ rest,
      labelFrom index (front ++ rest) = labelFrom index front ++ labelFrom next rest := by
  induction front generalizing index with
  | nil => exact ⟨index, fun _ => rfl⟩
  | cons token front inductionHypothesis =>
      obtain ⟨middle, first⟩ := exists_labelFrom_cons index token
      obtain ⟨next, split⟩ := inductionHypothesis middle
      exact ⟨next, fun rest => by rw [List.cons_append, first, first, split, List.cons_append]⟩

/-- Labels are numbered without a gap. -/
theorem map_index_labelFrom (index : Nat) (tokens : List Token) :
    ∃ count, ((labelFrom index tokens).filterMap LabelledToken.label).map Prod.fst =
      List.range' index count := by
  induction tokens generalizing index with
  | nil => exact ⟨0, rfl⟩
  | cons token rest inductionHypothesis =>
      rw [labelFrom]
      cases token.piece.declaration? with
      | none => exact inductionHypothesis index
      | some declaration =>
          obtain ⟨count, same⟩ := inductionHypothesis (index + 1)
          exact ⟨count + 1, by simp [same, List.range'_succ]⟩

theorem map_index_argDescriptions (pattern : Pattern) :
    pattern.display.argDescriptions.map ArgDescription.index =
      List.range pattern.display.argDescriptions.length := by
  obtain ⟨count, same⟩ := map_index_labelFrom 0 pattern.tokens
  have indices : pattern.display.argDescriptions.map ArgDescription.index = List.range' 0 count := by
    rw [← same, Pattern.display, List.map_filterMap, List.map_filterMap]
    simp only [Option.map_map]
    rfl
  have length : pattern.display.argDescriptions.length = count := by
    simpa using congrArg List.length indices
  rw [indices, length, List.range_eq_range']

/-! ## From tokens to nodes -/

/-- Whether nodes are the given markup with the given arguments. -/
structure Depicts (nodes : List Node) (markup : Text) (arguments : List Markup.Argument) :
    Prop where
  written : nodes.flatMap Node.written = markup
  wellFormed : ∀ node ∈ nodes, node.WellFormed
  arguments : nodes.flatMap Node.arguments = arguments

namespace Depicts

theorem nil : Depicts [] [] [] where
  written := rfl
  wellFormed := by simp
  arguments := rfl

theorem append {first second : List Node} {front back : Text} {early late : List Markup.Argument}
    (frontDepicts : Depicts first front early) (backDepicts : Depicts second back late) :
    Depicts (first ++ second) (front ++ back) (early ++ late) where
  written := by rw [List.flatMap_append, frontDepicts.written, backDepicts.written]
  wellFormed := List.forall_mem_append.2 ⟨frontDepicts.wellFormed, backDepicts.wellFormed⟩
  arguments := by rw [List.flatMap_append, frontDepicts.arguments, backDepicts.arguments]

theorem text (text : Text) : Depicts [.leaf (.text (escape text))] (escape text) [] where
  written := List.append_nil _
  wellFormed := List.forall_mem_singleton.2 (isText_escape text)
  arguments := rfl

theorem argument (index : Nat) (definition : ArgumentDefinition) :
    Depicts [.leaf (.argument (.ofDescription (.ofLabel (index, definition))))]
      (argumentSpan definition.type index definition.name)
      [.ofDescription (.ofLabel (index, definition))] where
  written := by
    rw [List.flatMap_singleton, argumentSpan_eq]
    rfl
  wellFormed := List.forall_mem_singleton.2 (isText_escape definition.name)
  arguments := rfl

theorem alternatives (text : Text) :
    Depicts [.alternatives (escape text)]
      ("<span class=\"step-alternatives\">".toList ++ escape text ++ "</span>".toList) [] where
  written := List.append_nil _
  wellFormed := List.forall_mem_singleton.2 (isText_escape text)
  arguments := rfl

/-- Leaves between parentheses fill the span of an optional group. -/
theorem optional {leaves : List Leaf} {markup : Text} {arguments : List Markup.Argument}
    (depicts : Depicts (leaves.map .leaf) markup arguments) :
    Depicts [.optional (.text (escape ['(']) :: (leaves ++ [.text (escape [')'])]))]
      ("<span class=\"step-optional\">(".toList ++ (markup ++ ")</span>".toList)) arguments where
  written := by
    have opening : "<span class=\"step-optional\">(".toList =
        "<span class=\"step-optional\">".toList ++ escape ['('] := rfl
    have closing : ")</span>".toList = escape [')'] ++ "</span>".toList := rfl
    have inner : leaves.flatMap Leaf.written = markup := by
      rw [← depicts.written, List.flatMap_map]
      rfl
    rw [opening, closing, ← inner, List.flatMap_singleton, Node.written_optional,
      List.flatMap_cons, List.flatMap_append, List.flatMap_singleton]
    simp only [Leaf.written_text, List.append_assoc]
  wellFormed := by
    rw [List.forall_mem_singleton, Node.WellFormed, List.forall_mem_cons, List.forall_mem_append,
      List.forall_mem_singleton]
    have inner (leaf : Leaf) (member : leaf ∈ leaves) : leaf.WellFormed :=
      depicts.wellFormed (.leaf leaf) (List.mem_map_of_mem member)
    exact ⟨isText_escape _, inner, isText_escape _⟩
  arguments := by
    have inner : leaves.filterMap Leaf.argument? = arguments := by
      rw [← depicts.arguments, List.flatMap_map, List.filterMap_eq_flatMap_toList]
      rfl
    rw [List.flatMap_singleton, Node.arguments, List.filterMap_cons_none rfl,
      List.filterMap_append, inner]
    exact List.append_nil _

end Depicts

/-- The span of the argument that a token declares, if it declares one. -/
theorem exists_leaves_of_argument (labelled : LabelledToken) :
    ∃ leaves : List Leaf,
      Depicts (leaves.map .leaf) labelled.argumentMarkup labelled.argument?.toList := by
  rw [LabelledToken.argumentMarkup, LabelledToken.argument?]
  cases labelled.label with
  | none => exact ⟨[], .nil⟩
  | some position => exact ⟨[_], .argument position.1 position.2⟩

/-- A token that may stand in an optional group is depicted by leaves. -/
theorem exists_leaves_of_isInline {token : Token} (inline : token.piece.isInline) (index : Nat) :
    ∃ leaves : List Leaf, Depicts (leaves.map .leaf) (labelAt index token).markup
      (labelAt index token).argument?.toList := by
  obtain ⟨piece, raw⟩ := token
  cases piece with
  | text characters => exact ⟨[_], .text characters⟩
  | escape character => exact ⟨[_], .text [character]⟩
  | outline name => exact ⟨[_], .text (outlineReference name)⟩
  | parameter type name =>
      exact exists_leaves_of_argument (labelAt index ⟨.parameter type name, raw⟩)
  | anonymous => exact exists_leaves_of_argument (labelAt index ⟨.anonymous, raw⟩)
  | _ => exact absurd inline Bool.false_ne_true

theorem exists_leaves_of_inline {tokens : List Token}
    (inline : ∀ token ∈ tokens, token.piece.isInline) (index : Nat) :
    ∃ leaves : List Leaf, Depicts (leaves.map .leaf)
      ((labelFrom index tokens).flatMap LabelledToken.markup)
      ((labelFrom index tokens).filterMap LabelledToken.argument?) := by
  induction tokens generalizing index with
  | nil => exact ⟨[], .nil⟩
  | cons token rest inductionHypothesis =>
      obtain ⟨own, others⟩ := List.forall_mem_cons.1 inline
      obtain ⟨next, labelled⟩ := exists_labelFrom_cons index token
      obtain ⟨first, early⟩ := exists_leaves_of_isInline own index
      obtain ⟨second, late⟩ := inductionHypothesis others next
      refine ⟨first ++ second, ?_⟩
      rw [labelled, List.map_append, List.flatMap_cons, List.filterMap_eq_flatMap_toList,
        List.flatMap_cons, ← List.filterMap_eq_flatMap_toList]
      exact early.append late

/-- A token that stands alone is depicted by nodes. -/
theorem exists_nodes_of_token {token : Token} (wellFormed : token.WellFormed) (index : Nat) :
    ∃ nodes, Depicts nodes (labelAt index token).markup
      (labelAt index token).argument?.toList := by
  by_cases inline : token.piece.isInline
  · obtain ⟨leaves, depicts⟩ := exists_leaves_of_isInline inline index
    exact ⟨_, depicts⟩
  obtain ⟨piece, raw⟩ := token
  cases piece with
  | anchor => exact ⟨[], .nil⟩
  | table columns =>
      obtain ⟨leaves, depicts⟩ := exists_leaves_of_argument (labelAt index ⟨.table columns, raw⟩)
      exact ⟨_, (Depicts.text ": ".toList).append depicts⟩
  | enum values =>
      obtain ⟨leaves, depicts⟩ := exists_leaves_of_argument (labelAt index ⟨.enum values, raw⟩)
      exact ⟨_, depicts⟩
  | alternatives words => exact ⟨_, .alternatives (Text.join ['/'] words)⟩
  | optionalOpen | optionalClose => exact wellFormed.elim
  | _ => exact absurd rfl inline

/-- An optional group is depicted by one node. -/
theorem exists_node_of_optional {body : List Token}
    (inline : ∀ token ∈ body, token.piece.isInline) (index : Nat) :
    ∃ node, Depicts [node]
      ((labelFrom index (Part.optional body).tokens).flatMap LabelledToken.markup)
      ((labelFrom index (Part.optional body).tokens).filterMap LabelledToken.argument?) := by
  obtain ⟨leaves, depicts⟩ := exists_leaves_of_inline inline index
  obtain ⟨next, split⟩ := exists_labelFrom_append index body
  have labelled : labelFrom index (Part.optional body).tokens =
      ⟨⟨.optionalOpen, ['(']⟩, none⟩ :: (labelFrom index body ++
        [⟨⟨.optionalClose, [')']⟩, none⟩]) := by
    rw [Part.tokens, List.cons_append, labelFrom]
    exact congrArg (_ :: ·) (split [⟨.optionalClose, [')']⟩])
  have nothing : [(⟨⟨.optionalClose, [')']⟩, none⟩ : LabelledToken)].filterMap
      LabelledToken.argument? = [] := rfl
  refine ⟨.optional (.text (escape ['(']) :: (leaves ++ [.text (escape [')'])])), ?_⟩
  rw [labelled, List.flatMap_cons, List.flatMap_append, List.flatMap_singleton,
    List.filterMap_cons_none rfl, List.filterMap_append, nothing, List.append_nil]
  exact depicts.optional

theorem exists_nodes {parts : List Part} (wellFormed : ∀ part ∈ parts, part.WellFormed)
    (index : Nat) :
    ∃ nodes, Depicts nodes
      ((labelFrom index (parts.flatMap Part.tokens)).flatMap LabelledToken.markup)
      ((labelFrom index (parts.flatMap Part.tokens)).filterMap LabelledToken.argument?) := by
  induction parts generalizing index with
  | nil => exact ⟨[], .nil⟩
  | cons part rest inductionHypothesis =>
      obtain ⟨own, others⟩ := List.forall_mem_cons.1 wellFormed
      obtain ⟨next, split⟩ := exists_labelFrom_append index part.tokens
      obtain ⟨late, lateDepicts⟩ := inductionHypothesis others next
      obtain ⟨early, earlyDepicts⟩ : ∃ nodes, Depicts nodes
          ((labelFrom index part.tokens).flatMap LabelledToken.markup)
          ((labelFrom index part.tokens).filterMap LabelledToken.argument?) := by
        cases part with
        | token single =>
            obtain ⟨_, labelled⟩ := exists_labelFrom_cons index single
            rw [Part.tokens, labelled, labelFrom, List.flatMap_singleton,
              List.filterMap_eq_flatMap_toList, List.flatMap_singleton]
            exact exists_nodes_of_token own index
        | optional body =>
            obtain ⟨node, depicts⟩ :=
              exists_node_of_optional (fun token member => (own.2 token member).1) index
            exact ⟨[node], depicts⟩
      refine ⟨early ++ late, ?_⟩
      rw [List.flatMap_cons, split, List.flatMap_append, List.filterMap_append]
      exact earlyDepicts.append lateDepicts

/-! ## Reading a document -/

theorem stripFrom_argumentMarkup (labelled : LabelledToken) (rest : Text) :
    stripFrom false none (labelled.argumentMarkup ++ rest) =
      escape labelled.argumentPlain ++ stripFrom false none rest := by
  rw [LabelledToken.argumentMarkup, LabelledToken.argumentPlain]
  cases labelled.label with
  | none => rfl
  | some position => exact stripFrom_argumentSpan position.2.type position.1 position.2.name rest

/-- What a reader leaves of the markup of a token is the plain text of the token. -/
theorem stripFrom_markup (labelled : LabelledToken) (rest : Text) :
    stripFrom false none (labelled.markup ++ rest) =
      escape labelled.plain ++ stripFrom false none rest := by
  have closed : '>' ∉ "/span".toList := by decide
  have closing : ¬opensArgument "/span".toList := by decide
  obtain ⟨⟨piece, raw⟩, label⟩ := labelled
  cases piece with
  | anchor => rfl
  | text characters => exact stripFrom_escape characters rest
  | escape character => exact stripFrom_escape [character] rest
  | outline name => exact stripFrom_escape (outlineReference name) rest
  | enum values => exact stripFrom_argumentMarkup ⟨⟨.enum values, raw⟩, label⟩ rest
  | parameter type name =>
      exact stripFrom_argumentMarkup ⟨⟨.parameter type name, raw⟩, label⟩ rest
  | anonymous => exact stripFrom_argumentMarkup ⟨⟨.anonymous, raw⟩, label⟩ rest
  | table columns =>
      have argument := stripFrom_argumentMarkup ⟨⟨.table columns, raw⟩, label⟩ rest
      have colon : escape ": ".toList = ": ".toList := rfl
      show stripFrom false none (": ".toList ++ LabelledToken.argumentMarkup _ ++ rest) =
        escape (": ".toList ++ LabelledToken.argumentPlain _) ++ _
      rw [List.append_assoc, stripFrom_text (by decide), argument, escape_append, colon,
        List.append_assoc]
  | optionalOpen =>
      have tag : "<span class=\"step-optional\">(".toList ++ rest =
          '<' :: ("span class=\"step-optional\"".toList ++ '>' :: (escape ['('] ++ rest)) := rfl
      show stripFrom false none ("<span class=\"step-optional\">(".toList ++ rest) = _
      rw [tag, stripFrom_other (by decide) (by decide), stripFrom_escape]
      rfl
  | optionalClose =>
      have tag : ")</span>".toList ++ rest =
          escape [')'] ++ '<' :: ("/span".toList ++ '>' :: rest) := rfl
      show stripFrom false none (")</span>".toList ++ rest) = _
      rw [tag, stripFrom_escape, stripFrom_other closed closing]
      rfl
  | alternatives words =>
      have opening (behind : Text) : "<span class=\"step-alternatives\">".toList ++ behind =
          '<' :: ("span class=\"step-alternatives\"".toList ++ '>' :: behind) := rfl
      have ending : "</span>".toList ++ rest = '<' :: ("/span".toList ++ '>' :: rest) := rfl
      show stripFrom false none ("<span class=\"step-alternatives\">".toList ++
        escape (Text.join ['/'] words) ++ "</span>".toList ++ rest) = _
      rw [List.append_assoc, List.append_assoc, opening, ending,
        stripFrom_other (by decide) (by decide), stripFrom_escape, stripFrom_other closed closing]
      rfl

theorem stripFrom_flatMap_markup (tokens : List LabelledToken) :
    stripFrom false none (tokens.flatMap LabelledToken.markup) =
      escape (tokens.flatMap LabelledToken.plain) := by
  induction tokens with
  | nil => rfl
  | cons token rest inductionHypothesis =>
      rw [List.flatMap_cons, stripFrom_markup, inductionHypothesis, List.flatMap_cons,
        escape_append]

/-- A displayed pattern is a document whose arguments are those described, numbered from zero, and
reading it gives the plain text. -/
theorem display_document (pattern : Pattern) :
    (∃ nodes : List Markup.Node, pattern.display.html = nodes.flatMap Markup.Node.written ∧
      (∀ node ∈ nodes, node.WellFormed) ∧
      nodes.flatMap Markup.Node.arguments =
        pattern.display.argDescriptions.map Markup.Argument.ofDescription) ∧
      pattern.display.argDescriptions.map ArgDescription.index =
        List.range pattern.display.argDescriptions.length ∧
      Markup.toPlain pattern.display.html = pattern.display.plainText := by
  refine ⟨?_, map_index_argDescriptions pattern, ?_⟩
  · have parts (part : Part) (member : part ∈ pattern.parts) := wellFormed_of_mem_parts member
    obtain ⟨nodes, written, wellFormed, arguments⟩ := exists_nodes parts 0
    refine ⟨nodes, written.symm, wellFormed, ?_⟩
    rw [arguments, Pattern.display, List.map_filterMap]
    simp only [Option.map_map]
    rfl
  · rw [Markup.toPlain]
    exact (congrArg decode (stripFrom_flatMap_markup _)).trans (decode_escape _)

end StepGrammar
