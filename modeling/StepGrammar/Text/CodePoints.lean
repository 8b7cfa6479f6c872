/-!
Contract: sets of code points as ascending lists of closed ranges.

The character classes of the library are tables of the Unicode character database. A table lists
disjoint ranges in ascending order, so a search stops at the first range that begins beyond the
code point.
-/

namespace StepGrammar

/-- Closed ranges of code points, in ascending order. -/
abbrev CodePoints := List (Nat × Nat)

def CodePoints.contains : CodePoints → Nat → Bool
  | [], _ => false
  | (first, last) :: rest, code =>
    if code < first then false
    else if code ≤ last then true
    else CodePoints.contains rest code

end StepGrammar
