import StepGrammar.Text.Blank

/-!
Contract: the keywords that open a step.

`And` and `But` continue the step before them, so they stand for any of the other three: a step
accepts a definition when either keyword is such a conjunction or both are the same.
-/

namespace StepGrammar

inductive StepKeyword where
  | givenStep
  | whenStep
  | thenStep
  | andStep
  | butStep
deriving DecidableEq, Repr

/-- The kind of a step once conjunctions are resolved. -/
inductive StepKind where
  | context
  | action
  | outcome
deriving DecidableEq, Repr

structure KeywordError where
  text : Text
deriving DecidableEq, Repr

def KeywordError.message (error : KeywordError) : Text :=
  "invalid step keyword: ".toList ++ error.text

namespace StepKeyword

def all : List StepKeyword := [.givenStep, .whenStep, .thenStep, .andStep, .butStep]

def name : StepKeyword → Text
  | .givenStep => "Given".toList
  | .whenStep => "When".toList
  | .thenStep => "Then".toList
  | .andStep => "And".toList
  | .butStep => "But".toList

def ofName? (name : Text) : Option StepKeyword := all.find? fun keyword => keyword.name == name

/-- The keyword that a text names, blanks around it and ASCII case aside. -/
def parse (text : Text) : Except KeywordError StepKeyword :=
  let trimmed := Text.trim text
  match all.find? fun keyword => Text.asciiLower keyword.name == Text.asciiLower trimmed with
  | some keyword => .ok keyword
  | none => .error ⟨trimmed⟩

/-- Whether the keyword stands for any of the others. -/
def isConjunction : StepKeyword → Bool
  | .andStep | .butStep => true
  | _ => false

/-- Whether a step with this keyword may use a definition with the other. -/
def accepts (step definition : StepKeyword) : Bool :=
  step.isConjunction || definition.isConjunction || step == definition

def ofKind : StepKind → StepKeyword
  | .context => .givenStep
  | .action => .whenStep
  | .outcome => .thenStep

end StepKeyword

end StepGrammar
