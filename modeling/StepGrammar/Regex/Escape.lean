import StepGrammar.Text.Basic

/-!
Contract: literal text inside the written form of a regular expression.

A backslash is put before every character that could have a meaning of its own in some position of
an expression.
-/

namespace StepGrammar.Regex

def metaCharacters : List Char :=
  ['\\', '.', '+', '*', '?', '(', ')', '|', '[', ']', '{', '}', '^', '$', '#', '&', '-', '~']

def escape : Text → Text
  | [] => []
  | character :: rest =>
    if metaCharacters.contains character then '\\' :: character :: escape rest
    else character :: escape rest

end StepGrammar.Regex
