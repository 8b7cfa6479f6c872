import StepGrammar.Fallback
import StepGrammar.Matching
import StepGrammar.Specificity

/-!
Contract: choosing among many definitions.

Candidates are the definitions whose keyword the step accepts. Those that match are ranked by
their score, the highest first, and among equal scores in the order in which they were given. The
best match is the first of them, or the definition made up from the text when there is none.
-/

namespace StepGrammar

structure RankedMatch where
  score : Nat
  result : MatchResult
deriving DecidableEq, Repr

def candidates (keyword : StepKeyword) (definitions : List StepDefinition) : List StepDefinition :=
  definitions.filter fun definition => keyword.accepts definition.keyword

def rankedMatch? (text : Text) (definition : StepDefinition) : Option RankedMatch :=
  (matchStep? text definition).map fun result => ⟨specificity definition.args, result⟩

/-- All matches of a step, the most specific first. -/
def rankMatches (text : Text) (keyword : StepKeyword) (definitions : List StepDefinition) :
    List RankedMatch :=
  ((candidates keyword definitions).filterMap (rankedMatch? text)).mergeSort
    fun first second => second.score ≤ first.score

/-- The most specific match of a step, or the definition made up from its text. -/
def bestMatch (text : Text) (keyword : StepKeyword) (definitions : List StepDefinition) :
    MatchResult :=
  match rankMatches text keyword definitions with
  | best :: _ => best.result
  | [] => fallbackMatch text

end StepGrammar
