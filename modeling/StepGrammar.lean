import StepGrammar.Argument
import StepGrammar.Command.Basic
import StepGrammar.Command.Config
import StepGrammar.Command.Line
import StepGrammar.Command.Run
import StepGrammar.Definition
import StepGrammar.Display
import StepGrammar.Fallback
import StepGrammar.Json.Basic
import StepGrammar.Json.Reader
import StepGrammar.Json.Writer
import StepGrammar.Keyword
import StepGrammar.Log
import StepGrammar.Main
import StepGrammar.Matching
import StepGrammar.Pattern.Alternatives
import StepGrammar.Pattern.Arguments
import StepGrammar.Pattern.Escape
import StepGrammar.Pattern.Group
import StepGrammar.Pattern.Inline
import StepGrammar.Pattern.Lexer
import StepGrammar.Pattern.Source
import StepGrammar.Pattern.Table
import StepGrammar.Pattern.Token
import StepGrammar.Proofs.Fallback.Arguments
import StepGrammar.Proofs.Fallback.Match
import StepGrammar.Proofs.Fallback.Resolve
import StepGrammar.Proofs.Fallback.Units
import StepGrammar.Proofs.Fallback.Values
import StepGrammar.Proofs.Fallback.Written
import StepGrammar.Proofs.Pattern.ArgumentViews
import StepGrammar.Proofs.Pattern.Declarations
import StepGrammar.Proofs.Pattern.Expression
import StepGrammar.Proofs.Pattern.Language
import StepGrammar.Proofs.Pattern.Tokens
import StepGrammar.Proofs.Pattern.UnitViews
import StepGrammar.Proofs.Pattern.Units
import StepGrammar.Proofs.Ranking.Order
import StepGrammar.Proofs.Regex.FirstMatch
import StepGrammar.Proofs.Regex.Language
import StepGrammar.Proofs.Regex.Reading
import StepGrammar.Proofs.Resolve.Allocation
import StepGrammar.Proofs.Resolve.RoundTrip
import StepGrammar.Proofs.Text.Blank
import StepGrammar.Proofs.Text.Scan
import StepGrammar.Proofs.Text.Stretch
import StepGrammar.Ranking
import StepGrammar.Regex.Basic
import StepGrammar.Regex.Compile
import StepGrammar.Regex.Escape
import StepGrammar.Regex.Match
import StepGrammar.Regex.Parses
import StepGrammar.Regex.Preference
import StepGrammar.Regex.Reader
import StepGrammar.Resolve
import StepGrammar.Segment
import StepGrammar.Specificity
import StepGrammar.Text.Alphabetic
import StepGrammar.Text.Basic
import StepGrammar.Text.Blank
import StepGrammar.Text.CodePoints
import StepGrammar.Text.Mark
import StepGrammar.Text.Numeric
import StepGrammar.Text.Scan
import StepGrammar.Text.Word
import StepGrammar.Wire.Argument
import StepGrammar.Wire.Definition
import StepGrammar.Wire.Pattern
import StepGrammar.Wire.Record
import StepGrammar.Proofs.Resolve.Acceptance
import StepGrammar.Proofs.Resolve.Reproduction
import StepGrammar.Proofs.Ranking.Specificity
import StepGrammar.Proofs.Pattern.Anchors
import StepGrammar.Proofs.Resolve.Pool
import StepGrammar.Proofs.Resolve.Position
import StepGrammar.Proofs.Resolve.Supply
import StepGrammar.Proofs.Resolve.Shortage
import StepGrammar.Proofs.Matching.Extraction
import StepGrammar.Proofs.Text.Positions
import StepGrammar.Proofs.Pattern.Written
import StepGrammar.Proofs.Pattern.Tiling
import StepGrammar.Proofs.Pattern.Tables
import StepGrammar.Proofs.Pattern.Columns
import StepGrammar.Proofs.Pattern.Delimiters
import StepGrammar.Proofs.Pattern.Escaping
import StepGrammar.Proofs.Matching.Choices
import StepGrammar.Proofs.Segment.Tiling
import StepGrammar.Proofs.Segment.Completion
import StepGrammar.Proofs.Matching.Quoting
import StepGrammar.Proofs.Resolve.Literal
import StepGrammar.Proofs.Pattern.Brackets
import StepGrammar.Proofs.Pattern.WordBoundaries
import StepGrammar.Proofs.Wire.Record
import StepGrammar.Proofs.Wire.RoundTrip
import StepGrammar.Proofs.Display.Markup
import StepGrammar.Proofs.Display.Document
