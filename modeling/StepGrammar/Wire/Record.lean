import StepGrammar.Json.Basic

/-!
Contract: records as JSON values.

A record is written as an object. It is read from an object, whose unknown members are ignored and
whose known members must not be repeated, or from an array that holds the fields in order and may
stop early. A field is required, or has a default for when it is missing, or is optional; only an
optional field may be null.
-/

namespace StepGrammar.Wire

abbrev Fields := List (Text × Json)

/-- The fields of a record that is given as an object: no known name may be repeated. -/
def objectFields? (names : List Text) (members : Fields) : Option Fields :=
  if names.any fun name => 1 < members.countP fun member => member.1 == name then none
  else some members

def fields? (names : List Text) : Json → Option Fields
  | .object members => objectFields? names members
  | .array items => if items.length ≤ names.length then some (names.zip items) else none
  | _ => none

variable {α : Type}

def readRequired (read : Json → Option α) (name : Text) (fields : Fields) : Option α :=
  match fields.lookup name with
  | some value => read value
  | none => none

def readDefaulted (absent : α) (read : Json → Option α) (name : Text) (fields : Fields) :
    Option α :=
  match fields.lookup name with
  | some value => read value
  | none => some absent

/-- The value of a field that may be missing or null. -/
def readOptional (read : Json → Option α) (name : Text) (fields : Fields) : Option (Option α) :=
  match fields.lookup name with
  | none => some none
  | some .null => some none
  | some value => (read value).map some

/-- One of a list of names, as a string or as an object whose only member has that name and is
null. -/
def variant? (ofName? : Text → Option α) : Json → Option α
  | .string name => ofName? name
  | .object [(name, .null)] => ofName? name
  | _ => none

/-- One of a list of names where the record was merged into another one: the only member may also
be an empty object. -/
def mergedVariant? (ofName? : Text → Option α) : Json → Option α
  | .object [(name, .object [])] => ofName? name
  | value => variant? ofName? value

end StepGrammar.Wire
