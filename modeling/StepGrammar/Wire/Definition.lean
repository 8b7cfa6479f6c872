import StepGrammar.Ranking
import StepGrammar.Wire.Argument

/-!
Contract: definitions and match results as JSON values.

Line numbers and scores are natural numbers of thirty-two bits.
-/

namespace StepGrammar

open Wire

/-- The numbers below this bound have at most thirty-two bits. -/
def wordBound : Nat := 4294967296

def StepKeyword.toJson (keyword : StepKeyword) : Json := .string keyword.name

/-- Reads a keyword in its canonical spelling. -/
def StepKeyword.ofJson? : Json → Option StepKeyword := variant? StepKeyword.ofName?

namespace StepLocation

def fieldNames : List Text := ["file".toList, "line".toList]

def toJson (location : StepLocation) : Json :=
  .ofMembers
    [("file".toList, some (.string location.file)),
      ("line".toList, some (.natural location.line))]

def ofJson? (value : Json) : Option StepLocation := do
  let fields ← fields? fieldNames value
  let file ← readRequired Json.text? "file".toList fields
  let line ← readRequired (Json.naturalBelow? wordBound) "line".toList fields
  return ⟨file, line⟩

end StepLocation

namespace StepDefinition

def fieldNames : List Text :=
  ["id".toList, "pattern".toList, "keyword".toList, "args".toList, "location".toList]

def toJson (definition : StepDefinition) : Json :=
  .ofMembers
    [("id".toList, some (.string definition.id)),
      ("pattern".toList, some (.string definition.pattern)),
      ("keyword".toList, some definition.keyword.toJson),
      ("args".toList, some (.array (definition.args.map ArgumentDefinition.toJson))),
      ("location".toList, definition.location.map StepLocation.toJson)]

def ofJson? (value : Json) : Option StepDefinition := do
  let fields ← fields? fieldNames value
  let id ← readRequired Json.text? "id".toList fields
  let pattern ← readRequired Json.text? "pattern".toList fields
  let keyword ← readRequired StepKeyword.ofJson? "keyword".toList fields
  let args ← readDefaulted [] (Json.items? ArgumentDefinition.ofJson?) "args".toList fields
  let location ← readOptional StepLocation.ofJson? "location".toList fields
  return ⟨id, pattern, keyword, args, location⟩

end StepDefinition

namespace MatchResult

def fieldNames : List Text := ["pattern".toList, "args".toList, "definitionId".toList]

def toJson (result : MatchResult) : Json :=
  .ofMembers
    [("pattern".toList, some (.string result.pattern)),
      ("args".toList, some (.array (result.args.map ConcreteArg.toJson))),
      ("definitionId".toList, result.definitionId.map Json.string)]

def ofJson? (value : Json) : Option MatchResult := do
  let fields ← fields? fieldNames value
  let pattern ← readRequired Json.text? "pattern".toList fields
  let args ← readRequired (Json.items? ConcreteArg.ofJson?) "args".toList fields
  let definitionId ← readOptional Json.text? "definitionId".toList fields
  return ⟨pattern, args, definitionId⟩

end MatchResult

namespace RankedMatch

def fieldNames : List Text := ["score".toList, "result".toList]

def toJson (ranked : RankedMatch) : Json :=
  .ofMembers
    [("score".toList, some (.natural ranked.score)), ("result".toList, some ranked.result.toJson)]

def ofJson? (value : Json) : Option RankedMatch := do
  let fields ← fields? fieldNames value
  let score ← readRequired (Json.naturalBelow? wordBound) "score".toList fields
  let result ← readRequired MatchResult.ofJson? "result".toList fields
  return ⟨score, result⟩

end RankedMatch

end StepGrammar
