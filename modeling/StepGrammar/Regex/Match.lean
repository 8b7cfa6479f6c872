import StepGrammar.Regex.Parses

/-!
Contract: matching a whole text without trying a position twice for the same part of an expression.

A column lists the positions of the text from which the rest of an expression can match, and what
it yields from each of them. The column of an expression is computed from the column of what
follows it, beginning with the end of the text. A long literal has one such position at a time, so
its cost does not grow with the text.
-/

namespace StepGrammar

/-- What the rest of an expression yields from a position of a text. The characters before the
position are listed with the nearest first, and those after it are counted. -/
structure Entry (α : Type) where
  before : Text
  after : Nat
  value : α
deriving Repr

namespace Entry

variable {α : Type}

/-- The entry one character earlier, if the class accepts that character. -/
def back? (chars : CharClass) (entry : Entry α) : Option (Entry α) :=
  match entry.before with
  | [] => none
  | character :: before =>
    if chars.accepts character then some ⟨before, entry.after + 1, entry.value⟩ else none

end Entry

/-- The positions from which the rest of an expression can match, the last one first. -/
abbrev Column (α : Type) := List (Entry α)

namespace Column

variable {α : Type}

/-- The column of one position, which is empty where nothing is yielded. -/
def single (before : Text) (after : Nat) (yielded : Option α) : Column α :=
  match yielded with
  | none => []
  | some value => [⟨before, after, value⟩]

def atStart? (column : Column α) : Option α :=
  (column.find? fun entry => entry.before.isEmpty).map Entry.value

def head? (after : Nat) : Column α → Option α
  | [] => none
  | entry :: _ => if entry.after = after then some entry.value else none

def earlier (after : Nat) (column : Column α) : Column α :=
  column.dropWhile fun entry => entry.after ≤ after

def step (chars : CharClass) (column : Column α) : Column α := column.filterMap (Entry.back? chars)

/-- The column before a greedy repetition of a class, for a position and all before it. What the
repetition yields after one more character is given, if the class accepts that character. -/
def repeatedFrom (chars : CharClass) (extended : Option α) (after : Nat) :
    (before : Text) → Column α → Column α
  | [], column => single [] after (extended.or (head? after column))
  | character :: before, column =>
    let yielded := extended.or (head? after column)
    single (character :: before) after yielded ++
      repeatedFrom chars (if chars.accepts character then yielded else none) (after + 1) before
        (earlier after column)

/-- The column before a greedy repetition of a class, in a text given with its last character
first. -/
def repeated (chars : CharClass) (reversed : Text) (column : Column α) : Column α :=
  repeatedFrom chars none 0 reversed column

/-- The first column where it yields something, the second elsewhere. -/
def orElse : (preferred other : Column α) → Column α
  | [], other => other
  | entry :: rest, other =>
    (other.takeWhile fun candidate => candidate.after < entry.after) ++
      entry :: orElse rest (earlier entry.after other)

def transform {β : Type} (change : α → β) (column : Column α) : Column β :=
  column.map fun entry => ⟨entry.before, entry.after, change entry.value⟩

/-- The column whose yields carry the number of characters after their position. -/
def measured (column : Column α) : Column (Nat × α) :=
  column.map fun entry => ⟨entry.before, entry.after, entry.after, entry.value⟩

end Column

/-- The part of a text between two positions. A position is the number of characters after it. -/
structure Extent where
  start : Nat
  stop : Nat
deriving DecidableEq, Repr

def Extent.cut (text : Text) (extent : Extent) : Text :=
  (text.drop (text.length - extent.start)).take (extent.start - extent.stop)

namespace Regex

/-- The column before an expression, from the column after it, in a text given with its last
character first. Its yields list the extents of the groups. -/
def column : Regex → {α : Type} → Text → Column α → Column (List (Option Extent) × α)
  | .empty, _, _, next => Column.transform (([], ·)) next
  | .one chars, _, _, next => Column.transform (([], ·)) (Column.step chars next)
  | .star chars, _, reversed, next =>
    Column.transform (([], ·)) (Column.repeated chars reversed next)
  | .plus chars, _, reversed, next =>
    Column.transform (([], ·)) (Column.step chars (Column.repeated chars reversed next))
  | .option body, _, reversed, next =>
    Column.orElse (body.column reversed next) (Column.transform ((absent body, ·)) next)
  | .append first second, _, reversed, next =>
    Column.transform (fun (captured, later, value) => (captured ++ later, value))
      (first.column reversed (second.column reversed next))
  | .either first second, _, reversed, next =>
    Column.orElse
      (Column.transform (fun (captured, value) => (captured ++ absent second, value))
        (first.column reversed next))
      (Column.transform (fun (captured, value) => (absent first ++ captured, value))
        (second.column reversed next))
  | .capture body, _, reversed, next =>
    Column.transform (fun (start, captured, stop, value) => (some ⟨start, stop⟩ :: captured, value))
      (Column.measured (body.column reversed (Column.measured next)))

/-- The captures of the preferred way to match a whole text. -/
def captures? (expression : Regex) (text : Text) : Option Captures :=
  (Column.atStart? (expression.column text.reverse [⟨text.reverse, 0, ()⟩])).map
    fun (extents, _) => extents.map (Option.map (Extent.cut text))

def accepts (expression : Regex) (text : Text) : Bool := (expression.captures? text).isSome

end Regex

end StepGrammar
