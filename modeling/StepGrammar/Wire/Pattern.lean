import StepGrammar.Display
import StepGrammar.Segment
import StepGrammar.Wire.Argument

/-!
Contract: segments and displayed patterns as JSON values.

The position of an argument is a natural number of sixty-four bits.
-/

namespace StepGrammar

open Wire

/-- The numbers below this bound have at most sixty-four bits. -/
def doubleWordBound : Nat := 18446744073709551616

namespace SegmentKind

def ofName? (name : Text) : Option SegmentKind :=
  [SegmentKind.text, .arg].find? fun kind => kind.name == name

def toJson (kind : SegmentKind) : Json := .string kind.name

def ofJson? : Json → Option SegmentKind := variant? ofName?

end SegmentKind

namespace PatternSegment

def fieldNames : List Text := ["type".toList, "value".toList, "arg".toList]

def toJson (segment : PatternSegment) : Json :=
  .ofMembers
    [("type".toList, some segment.kind.toJson),
      ("value".toList, some (.string segment.value)),
      ("arg".toList, segment.arg.map ArgumentDefinition.toJson)]

def ofJson? (value : Json) : Option PatternSegment := do
  let fields ← fields? fieldNames value
  let kind ← readRequired SegmentKind.ofJson? "type".toList fields
  let text ← readRequired Json.text? "value".toList fields
  let arg ← readOptional ArgumentDefinition.ofJson? "arg".toList fields
  return ⟨kind, text, arg⟩

end PatternSegment

namespace ArgDescription

def fieldNames : List Text :=
  ["index".toList, "name".toList, "type".toList, "description".toList, "enumValues".toList,
    "tableColumns".toList]

def toJson (description : ArgDescription) : Json :=
  .ofMembers
    [("index".toList, some (.natural description.index)),
      ("name".toList, some (.string description.name)),
      ("type".toList, some description.type.toJson),
      ("description".toList, some (.string description.description)),
      ("enumValues".toList, description.enumValues.map Json.texts),
      ("tableColumns".toList, description.tableColumns.map Json.texts)]

def ofJson? (value : Json) : Option ArgDescription := do
  let fields ← fields? fieldNames value
  let index ← readRequired (Json.naturalBelow? doubleWordBound) "index".toList fields
  let name ← readRequired Json.text? "name".toList fields
  let type ← readRequired ArgType.ofJson? "type".toList fields
  let description ← readRequired Json.text? "description".toList fields
  let enumValues ← readOptional Json.texts? "enumValues".toList fields
  let tableColumns ← readOptional Json.texts? "tableColumns".toList fields
  return ⟨index, name, type, description, enumValues, tableColumns⟩

end ArgDescription

namespace FormattedPattern

def fieldNames : List Text := ["html".toList, "plainText".toList, "argDescriptions".toList]

def toJson (formatted : FormattedPattern) : Json :=
  .ofMembers
    [("html".toList, some (.string formatted.html)),
      ("plainText".toList, some (.string formatted.plainText)),
      ("argDescriptions".toList,
        some (.array (formatted.argDescriptions.map ArgDescription.toJson)))]

def ofJson? (value : Json) : Option FormattedPattern := do
  let fields ← fields? fieldNames value
  let html ← readRequired Json.text? "html".toList fields
  let plainText ← readRequired Json.text? "plainText".toList fields
  let argDescriptions ←
    readRequired (Json.items? ArgDescription.ofJson?) "argDescriptions".toList fields
  return ⟨html, plainText, argDescriptions⟩

end FormattedPattern

end StepGrammar
