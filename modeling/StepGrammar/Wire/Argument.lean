import StepGrammar.Argument
import StepGrammar.Wire.Record

/-!
Contract: arguments as JSON values.

A concrete argument is one object with the fields of its definition and its value. Its members are
values of a document that was read already, and unknown ones are passed over. A reader that merges
the two records while it reads a text also holds the unknown members, so it would refuse one that
has no value: a string that is unreadable, or a number beyond its range. No command reads a concrete
argument from a text, and such members stand outside this contract.
-/

namespace StepGrammar

open Wire

def ArgType.toJson (type : ArgType) : Json := .string type.name

def ArgType.ofJson? : Json → Option ArgType := variant? ArgType.ofName?

namespace ArgumentDefinition

def fieldNames : List Text :=
  ["name".toList, "type".toList, "required".toList, "enumValues".toList, "tableColumns".toList]

def members (definition : ArgumentDefinition) : List (Text × Option Json) :=
  [("name".toList, some (.string definition.name)),
    ("type".toList, some definition.type.toJson),
    ("required".toList, some (.bool definition.required)),
    ("enumValues".toList, definition.enumValues.map Json.texts),
    ("tableColumns".toList, definition.tableColumns.map Json.texts)]

def toJson (definition : ArgumentDefinition) : Json := .ofMembers definition.members

/-- Reads a definition from its fields, with the given reading of its type. -/
def ofFields? (readType : Json → Option ArgType) (fields : Fields) : Option ArgumentDefinition := do
  let name ← readRequired Json.text? "name".toList fields
  let type ← readRequired readType "type".toList fields
  let isRequired ← readDefaulted true Json.bool? "required".toList fields
  let enumValues ← readOptional Json.texts? "enumValues".toList fields
  let tableColumns ← readOptional Json.texts? "tableColumns".toList fields
  return ⟨name, type, isRequired, enumValues, tableColumns⟩

def ofJson? (value : Json) : Option ArgumentDefinition :=
  (fields? fieldNames value).bind (ofFields? ArgType.ofJson?)

end ArgumentDefinition

namespace ConcreteArg

def fieldNames : List Text := "value".toList :: ArgumentDefinition.fieldNames

def toJson (arg : ConcreteArg) : Json :=
  .ofMembers (arg.definition.members ++ [("value".toList, some (.string arg.value))])

/-- Reads a concrete argument, which must be an object. -/
def ofJson? : Json → Option ConcreteArg
  | .object members => do
    let fields ← objectFields? fieldNames members
    let value ← readDefaulted [] Json.text? "value".toList fields
    let definition ← ArgumentDefinition.ofFields? (mergedVariant? ArgType.ofName?) fields
    return ⟨definition, value⟩
  | _ => none

end ConcreteArg

end StepGrammar
