import StepGrammar.Text.Basic

/-!
Contract: the arguments that a step pattern declares and the values they take.

An argument is an inline parameter of one of five types, a choice from a closed list, or the data
table below the step. A definition says how an argument is called and what it may be; a concrete
argument adds its value.
-/

namespace StepGrammar

inductive ParameterType where
  | string
  | int
  | float
  | word
  | any
deriving DecidableEq, Repr

namespace ParameterType

def all : List ParameterType := [.string, .int, .float, .word, .any]

/-- The name of a type as it is written between braces. -/
def name : ParameterType → Text
  | .string => "string".toList
  | .int => "int".toList
  | .float => "float".toList
  | .word => "word".toList
  | .any => "any".toList

def ofName? (name : Text) : Option ParameterType := all.find? fun type => type.name == name

end ParameterType

inductive ArgType where
  | parameter (type : ParameterType)
  | enum
  | table
deriving DecidableEq, Repr

namespace ArgType

def all : List ArgType := ParameterType.all.map .parameter ++ [.enum, .table]

def name : ArgType → Text
  | .parameter type => type.name
  | .enum => "enum".toList
  | .table => "table".toList

def ofName? (name : Text) : Option ArgType := all.find? fun type => type.name == name

/-- How much a type narrows the texts that match it. -/
def weight : ArgType → Nat
  | .table => 90
  | .enum => 80
  | .parameter .int | .parameter .float => 60
  | .parameter .string => 40
  | .parameter .word => 30
  | .parameter .any => 20

/-- Whether the value of an argument is a piece of the step text. The rows of a table stand below
the step. -/
def isCaptured : ArgType → Bool
  | .table => false
  | _ => true

end ArgType

structure ArgumentDefinition where
  name : Text
  type : ArgType
  required : Bool := true
  enumValues : Option (List Text) := none
  tableColumns : Option (List Text) := none
deriving DecidableEq, Repr

structure ConcreteArg where
  definition : ArgumentDefinition
  value : Text
deriving DecidableEq, Repr

namespace ConcreteArg

def type (arg : ConcreteArg) : ArgType := arg.definition.type

/-- A value of which only the type is known. -/
def typed (type : ArgType) (value : Text) : ConcreteArg := ⟨{ name := [], type := type }, value⟩

end ConcreteArg

/-- The name of an argument that was given none: `arg` and its position. -/
def positionalName (index : Nat) : Text := "arg".toList ++ Text.ofNat index

end StepGrammar
