import StepGrammar.Text.Basic

/-!
Contract: JSON values.

Members of an object keep their order and may repeat a name. A number is a natural number when it
is written with digits alone, and otherwise keeps its spelling: a sign, a fraction or an exponent
makes it another number.
-/

namespace StepGrammar

inductive Json where
  | null
  | bool (value : Bool)
  | natural (value : Nat)
  | otherNumber (spelling : Text)
  | string (value : Text)
  /-- A string, or an object with a member name, that spells half of a surrogate pair: well
  formed, but no text. -/
  | unreadable
  | array (items : List Json)
  | object (members : List (Text × Json))

namespace Json

def texts (values : List Text) : Json := .array (values.map .string)

/-- The members of an object of which some may be absent. -/
def ofMembers (members : List (Text × Option Json)) : Json :=
  .object (members.filterMap fun (name, value) => value.map fun present => (name, present))

def text? : Json → Option Text
  | .string value => some value
  | _ => none

def bool? : Json → Option Bool
  | .bool value => some value
  | _ => none

def naturalBelow? (bound : Nat) : Json → Option Nat
  | .natural value => if value < bound then some value else none
  | _ => none

def items? {α : Type} (read : Json → Option α) : Json → Option (List α)
  | .array items => items.mapM read
  | _ => none

def texts? : Json → Option (List Text) := items? text?

end Json

end StepGrammar
