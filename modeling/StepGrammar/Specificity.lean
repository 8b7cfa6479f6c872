import StepGrammar.Argument

/-!
Contract: how specific the arguments of a definition are.

A score is the sum of the weights of the argument types, held to the largest value of thirty-two
bits. Literal text adds nothing.
-/

namespace StepGrammar

def maximalScore : Nat := 4294967295

def totalWeight : List ArgumentDefinition → Nat
  | [] => 0
  | arg :: rest => arg.type.weight + totalWeight rest

def specificity (args : List ArgumentDefinition) : Nat :=
  if totalWeight args ≤ maximalScore then totalWeight args else maximalScore

end StepGrammar
