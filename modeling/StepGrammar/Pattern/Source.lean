import StepGrammar.Pattern.Inline
import StepGrammar.Pattern.Lexer
import StepGrammar.Regex.Compile

/-!
Contract: the regular expression of a pattern.

Every token contributes a fragment, and the written form is the fragments between two anchors. A
token that takes a value from the step text contributes one capture group and no other token
contributes any. A table collapses to the colon that ends the step line.
-/

namespace StepGrammar

def ParameterType.fragment : ParameterType → Text
  | .string => "(\"[^\"]*\"|'[^']*'|\\S+)".toList
  | .int => "(-?\\d+)".toList
  | .float => "(-?\\d*\\.?\\d+)".toList
  | .word | .any => "(\\S+)".toList

def choiceFragment (texts : List Text) : Text := Text.join ['|'] (texts.map Regex.escape)

def Piece.fragment : Piece → Text
  | .anchor => []
  | .text characters => Regex.escape characters
  | .escape character => Regex.escape [character]
  | .table _ => [':']
  | .enum values => '(' :: choiceFragment values ++ [')']
  | .parameter type _ => type.fragment
  | .anonymous => "(.+)".toList
  | .optionalOpen => "(?:".toList
  | .optionalClose => ")?".toList
  | .alternatives words => "(?:".toList ++ choiceFragment words ++ [')']
  | .outline name => Regex.escape (outlineReference name)

namespace Pattern

def source (pattern : Pattern) : Text :=
  '^' :: (pattern.tokens.flatMap fun token => token.piece.fragment) ++ ['$']

def compile (pattern : Pattern) : Except Regex.CompileError Regex := Regex.compile pattern.source

end Pattern

end StepGrammar
