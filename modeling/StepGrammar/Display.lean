import StepGrammar.Definition
import StepGrammar.Pattern.Inline

/-!
Contract: a pattern as it is shown to a reader.

Every argument is replaced by its name, in brackets in the plain text and in a marked span in the
markup. Optional groups and alternatives keep their spelling and are marked as well. Tables are
numbered after the inline arguments.
-/

namespace StepGrammar

structure ArgDescription where
  index : Nat
  name : Text
  type : ArgType
  description : Text
  enumValues : Option (List Text) := none
  tableColumns : Option (List Text) := none
deriving DecidableEq, Repr

structure FormattedPattern where
  html : Text
  plainText : Text
  argDescriptions : List ArgDescription
deriving DecidableEq, Repr

namespace Markup

def escapeCharacter (character : Char) : Text :=
  if character = '&' then "&amp;".toList
  else if character = '<' then "&lt;".toList
  else if character = '>' then "&gt;".toList
  else if character = '"' then "&quot;".toList
  else if character = '\x27' then "&apos;".toList
  else [character]

def escape (text : Text) : Text := text.flatMap escapeCharacter

def argumentSpan (type : ArgType) (index : Nat) (name : Text) : Text :=
  "<span class=\"step-arg step-arg-".toList ++ type.name ++ "\" data-arg-index=\"".toList ++
    Text.ofNat index ++ "\">".toList ++ escape name ++ "</span>".toList

end Markup

/-- A token with the position and definition of the argument that it declares. -/
structure LabelledToken where
  token : Token
  label : Option (Nat × ArgumentDefinition)
deriving DecidableEq, Repr

/-- The tokens with their labels, where the first argument has the given position. -/
def labelFrom (index : Nat) : List Token → List LabelledToken
  | [] => []
  | token :: rest =>
    match token.piece.declaration? with
    | some declaration =>
      ⟨token, some (index, declaration.define index)⟩ :: labelFrom (index + 1) rest
    | none => ⟨token, none⟩ :: labelFrom index rest

def LabelledToken.argumentMarkup (labelled : LabelledToken) : Text :=
  match labelled.label with
  | some (index, definition) => Markup.argumentSpan definition.type index definition.name
  | none => []

def LabelledToken.argumentPlain (labelled : LabelledToken) : Text :=
  match labelled.label with
  | some (_, definition) => '[' :: definition.name ++ [']']
  | none => []

def LabelledToken.markup (labelled : LabelledToken) : Text :=
  match labelled.token.piece with
  | .anchor => []
  | .text characters => Markup.escape characters
  | .escape character => Markup.escape [character]
  | .table _ => ": ".toList ++ labelled.argumentMarkup
  | .enum _ | .parameter _ _ | .anonymous => labelled.argumentMarkup
  | .optionalOpen => "<span class=\"step-optional\">(".toList
  | .optionalClose => ")</span>".toList
  | .alternatives words =>
    "<span class=\"step-alternatives\">".toList ++ Markup.escape (Text.join ['/'] words) ++
      "</span>".toList
  | .outline name => Markup.escape (outlineReference name)

def LabelledToken.plain (labelled : LabelledToken) : Text :=
  match labelled.token.piece with
  | .anchor => []
  | .text characters => characters
  | .escape character => [character]
  | .table _ => ": ".toList ++ labelled.argumentPlain
  | .enum _ | .parameter _ _ | .anonymous => labelled.argumentPlain
  | .optionalOpen => ['(']
  | .optionalClose => [')']
  | .alternatives words => Text.join ['/'] words
  | .outline name => outlineReference name

def ArgumentDefinition.describe (definition : ArgumentDefinition) : Text :=
  match definition.type with
  | .enum => "one of: ".toList ++ Text.join ", ".toList (definition.enumValues.getD [])
  | .table =>
    match definition.tableColumns with
    | none => "data table".toList
    | some columns => "data table with columns: ".toList ++ Text.join ", ".toList columns
  | .parameter .string => "text value".toList
  | .parameter .int => "integer value".toList
  | .parameter .float => "decimal value".toList
  | .parameter .word => "single word".toList
  | .parameter .any => "any value".toList

def ArgDescription.ofLabel (label : Nat × ArgumentDefinition) : ArgDescription where
  index := label.1
  name := label.2.name
  type := label.2.type
  description := label.2.describe
  enumValues := label.2.enumValues
  tableColumns := label.2.tableColumns

def Pattern.display (pattern : Pattern) : FormattedPattern :=
  let labelled := labelFrom 0 pattern.tokens
  { html := labelled.flatMap LabelledToken.markup
    plainText := labelled.flatMap LabelledToken.plain
    argDescriptions := labelled.filterMap fun token => token.label.map ArgDescription.ofLabel }

end StepGrammar
