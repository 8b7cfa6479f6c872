import StepGrammar.Pattern.Alternatives
import StepGrammar.Pattern.Group
import StepGrammar.Pattern.Inline
import StepGrammar.Pattern.Table

/-!
Contract: from the text of a pattern to its parts and tokens.

The raw texts of the tokens, one after the other, are the pattern. At every position the
constructs are tried in a fixed order: escape, table, choice, parameter, empty braces, optional
group, alternatives, outline reference. Inside an optional group there are no tables, choices,
groups or alternatives.
-/

namespace StepGrammar

def Found.token (text : Text) (found : Found Piece) : Token :=
  ⟨found.value, text.take found.length⟩

def inlineToken? : Recogniser Token := fun _ text =>
  (inline? text).map fun found => ⟨found.token text, found.length⟩

/-- The token of a span, where plain text is a token of its own. -/
def Span.token : Span Token → Token
  | .plain text => ⟨.text text, text⟩
  | .construct found => found

def groupTokens (content : Text) : List Token := (scan inlineToken? content).map Span.token

def Found.part (text : Text) (found : Found Piece) : Found Part :=
  ⟨.token (found.token text), found.length⟩

def optionalPart (content : Text) : Found Part :=
  ⟨.optional (groupTokens content), groupLength content⟩

def part? : Recogniser Part := fun previous text =>
  (escape? text).map (Found.part text) <|>
    (table? text).map (Found.part text) <|>
    (enum? text).map (Found.part text) <|>
    (parameter? text).map (Found.part text) <|>
    (anonymous? text).map (Found.part text) <|>
    (optionalContent? text).map optionalPart <|>
    (alternatives? previous text).map (Found.part text) <|>
    (outline? text).map (Found.part text)

def Span.part : Span Part → Part
  | .plain text => .token ⟨.text text, text⟩
  | .construct found => found

def bodyParts (body : Text) : List Part := (scan part? body).map Span.part

abbrev Pattern := Text

/-- A pattern cut into its opening anchor, its body and its closing anchor. -/
structure Anchored where
  opening : Text
  body : Text
  closing : Text
deriving DecidableEq, Repr

/-- Whether a text ends in a dollar sign that no backslash precedes. -/
def endsInDollar (text : Text) : Bool :=
  text.getLast? == some '$' && text.dropLast.getLast? != some '\\'

def Anchored.ofRest (opening rest : Text) : Anchored :=
  if endsInDollar rest then ⟨opening, rest.dropLast, ['$']⟩ else ⟨opening, rest, []⟩

def Anchored.ofPattern : Pattern → Anchored
  | [] => ⟨[], [], []⟩
  | character :: rest =>
    if character == '^' then .ofRest ['^'] rest else .ofRest [] (character :: rest)

def anchorParts (raw : Text) : List Part := if raw.isEmpty then [] else [.token ⟨.anchor, raw⟩]

def Pattern.parts (pattern : Pattern) : List Part :=
  let anchored := Anchored.ofPattern pattern
  anchorParts anchored.opening ++ bodyParts anchored.body ++ anchorParts anchored.closing

def Pattern.tokens (pattern : Pattern) : List Token := pattern.parts.flatMap Part.tokens

end StepGrammar
