import PagingGate.CommandLine
import PagingGate.CommandLine.Help
import PagingGate.CommandLine.Options
import PagingGate.Configuration
import PagingGate.Decimal.Exact
import PagingGate.Decimal.Numeral
import PagingGate.Decimal.Shortest
import PagingGate.Discovery
import PagingGate.Except
import PagingGate.FileTree
import PagingGate.FileTree.Edit
import PagingGate.FileTree.Path
import PagingGate.Files
import PagingGate.Gate
import PagingGate.Json.Blank
import PagingGate.Json.Error
import PagingGate.Json.Number
import PagingGate.Json.Reader
import PagingGate.Json.Record
import PagingGate.Json.Skip
import PagingGate.Json.String
import PagingGate.Json.Text
import PagingGate.Main
import PagingGate.Mismatch
import PagingGate.Program
import PagingGate.Proofs.Binary64.Arithmetic
import PagingGate.Proofs.Binary64.Error
import PagingGate.Proofs.Binary64.Packing
import PagingGate.Proofs.Binary64.Rounding
import PagingGate.Proofs.Binary64.Scientific
import PagingGate.Proofs.Binary64.Shifting
import PagingGate.Proofs.Binary64.Value
import PagingGate.Proofs.CommandLine.Items
import PagingGate.Proofs.CommandLine.Layers
import PagingGate.Proofs.CommandLine.Routes
import PagingGate.Proofs.Commands
import PagingGate.Proofs.Decimal.Characters
import PagingGate.Proofs.Decimal.Digits
import PagingGate.Proofs.Decimal.Exact
import PagingGate.Proofs.Decimal.Fixed
import PagingGate.Proofs.Decimal.Numeral
import PagingGate.Proofs.Decimal.Reading
import PagingGate.Proofs.Decimal.Shortest
import PagingGate.Proofs.Decimal.Shown
import PagingGate.Proofs.Discovery.Candidates
import PagingGate.Proofs.Discovery.Order
import PagingGate.Proofs.Discovery.Reached
import PagingGate.Proofs.Endings
import PagingGate.Proofs.FileTree.Edit
import PagingGate.Proofs.FileTree.Names
import PagingGate.Proofs.FileTree.Walk
import PagingGate.Proofs.FileTree.WellFormed
import PagingGate.Proofs.FileTree.Write
import PagingGate.Proofs.Files
import PagingGate.Proofs.Json.Cut
import PagingGate.Proofs.Json.Drift
import PagingGate.Proofs.Json.Fields
import PagingGate.Proofs.Json.Finite
import PagingGate.Proofs.Json.Grammar
import PagingGate.Proofs.Json.Literal
import PagingGate.Proofs.Json.Nearest
import PagingGate.Proofs.Json.Numbers
import PagingGate.Proofs.Json.Readers
import PagingGate.Proofs.Json.Records
import PagingGate.Proofs.Json.Scaling
import PagingGate.Proofs.Json.Scan
import PagingGate.Proofs.Json.Significand
import PagingGate.Proofs.Json.Strings
import PagingGate.Proofs.Json.Tokens
import PagingGate.Proofs.Json.Unambiguous
import PagingGate.Proofs.Json.Written
import PagingGate.Proofs.Report.Decoding
import PagingGate.Proofs.Report.Figures
import PagingGate.Proofs.Report.Naming
import PagingGate.Proofs.Report.Nearest
import PagingGate.Proofs.Report.Pair
import PagingGate.Proofs.Report.Truncation
import PagingGate.Proofs.Rerun
import PagingGate.Proofs.Selection
import PagingGate.Proofs.Settings
import PagingGate.Proofs.Settings.Agreement
import PagingGate.Proofs.Settings.Spelling
import PagingGate.Proofs.Summary.Document
import PagingGate.Proofs.Summary.Grouping
import PagingGate.Proofs.Summary.Json
import PagingGate.Proofs.Summary.Percentages
import PagingGate.Proofs.Text.Lines
import PagingGate.Proofs.Text.Utf8
import PagingGate.Proofs.Thresholds
import PagingGate.Proofs.Toml.Building
import PagingGate.Proofs.Toml.Grammar
import PagingGate.Proofs.Toml.Keys
import PagingGate.Proofs.Toml.Numbers
import PagingGate.Proofs.Toml.Rows
import PagingGate.Proofs.Toml.Statements
import PagingGate.Proofs.Verdict.Boundary
import PagingGate.Proofs.Verdict.Monotone
import PagingGate.Proofs.Verdict.Overflow
import PagingGate.Report
import PagingGate.Report.Reader
import PagingGate.Selection
import PagingGate.Summary
import PagingGate.Text.Lowercase
import PagingGate.Text.Terminal
import PagingGate.Text.Unicode
import PagingGate.Text.Utf8
import PagingGate.Thresholds
import PagingGate.Thresholds.Reader
import PagingGate.Toml.Blank
import PagingGate.Toml.Document
import PagingGate.Toml.Reader
import PagingGate.Toml.Scalar
import PagingGate.Toml.Table
import PagingGate.Toml.Text
import PagingGate.Toml.Value
import PagingGate.Verdict
