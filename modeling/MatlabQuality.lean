import MatlabQuality.Command.Arguments
import MatlabQuality.Command.Execution
import MatlabQuality.Command.Failure
import MatlabQuality.Command.Outcome
import MatlabQuality.Command.Parser
import MatlabQuality.Files.Batch
import MatlabQuality.Files.Discovery
import MatlabQuality.Files.Path
import MatlabQuality.Files.Tree
import MatlabQuality.Files.Workers
import MatlabQuality.Ignore.Glob
import MatlabQuality.Ignore.Rule
import MatlabQuality.Ignore.Scope
import MatlabQuality.Json.Decode
import MatlabQuality.Json.Number
import MatlabQuality.Json.Reader
import MatlabQuality.Json.Value
import MatlabQuality.Json.Writer
import MatlabQuality.Main
import MatlabQuality.Number.Binary64
import MatlabQuality.Number.Digits
import MatlabQuality.Number.Layout
import MatlabQuality.Number.Rounding
import MatlabQuality.Number.Shortest
import MatlabQuality.Report.Basic
import MatlabQuality.Report.Format
import MatlabQuality.Report.Json
import MatlabQuality.Report.Page
import MatlabQuality.Report.Plain
import MatlabQuality.Report.Run
import MatlabQuality.Report.Style
import MatlabQuality.Report.Timestamp
import MatlabQuality.Smell.Finding
import MatlabQuality.Smell.Kind
import MatlabQuality.Smell.Rule
import MatlabQuality.Smell.Score
import MatlabQuality.Smell.Severity
import MatlabQuality.Source.Block
import MatlabQuality.Source.Decision
import MatlabQuality.Source.Function
import MatlabQuality.Source.Line
import MatlabQuality.Source.Literal
import MatlabQuality.Source.Metrics
import MatlabQuality.Text.Blank
import MatlabQuality.Text.Case
import MatlabQuality.Text.LineEnding
import MatlabQuality.Text.Ranges
import MatlabQuality.Text.Similarity
import MatlabQuality.Text.Split
import MatlabQuality.Text.Utf8
import MatlabQuality.Text.Word
import MatlabQuality.Thresholds.Basic
import MatlabQuality.Thresholds.File
import MatlabQuality.Thresholds.Read
import MatlabQuality.Toml.Lexical
import MatlabQuality.Toml.Reader
import MatlabQuality.Toml.Scope
import MatlabQuality.Toml.Value
import MatlabQuality.Proofs.Text.Lines
import MatlabQuality.Proofs.Text.Reading
import MatlabQuality.Proofs.Source.Body
import MatlabQuality.Proofs.Source.Forest
import MatlabQuality.Proofs.Source.Extent
import MatlabQuality.Proofs.Source.Indentation
import MatlabQuality.Proofs.Number.Rounding
import MatlabQuality.Proofs.Number.Value
import MatlabQuality.Proofs.Smell.Score
import MatlabQuality.Proofs.Report.Account
import MatlabQuality.Proofs.Number.Order
import MatlabQuality.Proofs.Smell.Tightening
import MatlabQuality.Proofs.Report.Calendar
import MatlabQuality.Proofs.Report.Escape
import MatlabQuality.Proofs.Report.Figures
import MatlabQuality.Proofs.Report.Instant
import MatlabQuality.Proofs.Report.Markup
import MatlabQuality.Proofs.Report.Page
import MatlabQuality.Proofs.Number.Digits
import MatlabQuality.Proofs.Number.Unsigned
import MatlabQuality.Proofs.Number.Grouping
import MatlabQuality.Proofs.Number.Interval
import MatlabQuality.Proofs.Number.Exact
import MatlabQuality.Proofs.Number.Shortest
import MatlabQuality.Proofs.Number.Layout
import MatlabQuality.Proofs.Number.Recovery
import MatlabQuality.Proofs.Toml.Literal
import MatlabQuality.Proofs.Toml.Document
import MatlabQuality.Proofs.Text.Utf8
import MatlabQuality.Proofs.Json.Number
import MatlabQuality.Proofs.Json.Reader
import MatlabQuality.Proofs.Json.Decode
import MatlabQuality.Proofs.Files.Writing
import MatlabQuality.Proofs.Report.Saved
import MatlabQuality.Proofs.Source.Concatenation
import MatlabQuality.Proofs.Text.Decoding
import MatlabQuality.Proofs.Files.Batch
import MatlabQuality.Proofs.Files.Path
import MatlabQuality.Proofs.Files.WellFormed
import MatlabQuality.Proofs.Files.Below
import MatlabQuality.Proofs.Files.Discovery
import MatlabQuality.Proofs.Thresholds.Entries
import MatlabQuality.Proofs.Json.Object
import MatlabQuality.Proofs.Thresholds.Commented
import MatlabQuality.Proofs.Thresholds.Formats
import MatlabQuality.Proofs.Files.Resolution
import MatlabQuality.Proofs.Command.Overwriting
import MatlabQuality.Proofs.Command.Effects
import MatlabQuality.Proofs.Text.Span
import MatlabQuality.Proofs.Text.Encoding
import MatlabQuality.Proofs.Source.Agreement
import MatlabQuality.Proofs.Source.Grammar
import MatlabQuality.Proofs.Files.Parent
import MatlabQuality.Proofs.Thresholds.Loading
import MatlabQuality.Proofs.Command.Parsing
import MatlabQuality.Proofs.Command.Gate
import MatlabQuality.Proofs.Text.Pattern
import MatlabQuality.Proofs.Text.Runs
import MatlabQuality.Proofs.Source.Balance
import MatlabQuality.Proofs.Source.Decisions
import MatlabQuality.Proofs.Source.Literals
import MatlabQuality.Proofs.Source.Unexplained
import MatlabQuality.Proofs.Source.Numerals
import MatlabQuality.Proofs.Source.Insertion
import MatlabQuality.Proofs.Smell.CommentShare
import MatlabQuality.Proofs.Report.Date
import MatlabQuality.Proofs.Command.Spelling
import MatlabQuality.Proofs.Command.Workers
