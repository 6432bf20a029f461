import BenchTables.Command.Aggregate
import BenchTables.Command.Arguments
import BenchTables.Command.Inspect
import BenchTables.Command.Line
import BenchTables.Command.Plan
import BenchTables.Command.Render
import BenchTables.Command.Settings
import BenchTables.Command.Settings.Basic
import BenchTables.Command.Settings.Value
import BenchTables.Condensed.Kind
import BenchTables.Condensed.Reader
import BenchTables.Condensed.Row
import BenchTables.Condensed.Tables
import BenchTables.Csv.Document
import BenchTables.Csv.Fault
import BenchTables.Csv.Scan
import BenchTables.Csv.Writer
import BenchTables.Decimal.BinaryValue
import BenchTables.Decimal.Digits
import BenchTables.Decimal.Fixed
import BenchTables.Decimal.Numeral
import BenchTables.Decimal.Rounding
import BenchTables.Decimal.Shortest
import BenchTables.Experiment.Group
import BenchTables.Experiment.Report
import BenchTables.Files.Failure
import BenchTables.Files.Path
import BenchTables.Files.Tree
import BenchTables.Json.Number
import BenchTables.Json.Value
import BenchTables.Latex.Bandwidth
import BenchTables.Latex.Markup
import BenchTables.Latex.RoundTrip
import BenchTables.Log.Entry
import BenchTables.Log.Traced
import BenchTables.Main
import BenchTables.Measurement.Basic
import BenchTables.Measurement.Counter
import BenchTables.Measurement.Reader
import BenchTables.Proofs.Binary64.Finite
import BenchTables.Proofs.Binary64.Nearest
import BenchTables.Proofs.Binary64.Order
import BenchTables.Proofs.Binary64.Packing
import BenchTables.Proofs.Binary64.Positive
import BenchTables.Proofs.Binary64.Quotient
import BenchTables.Proofs.Binary64.Range
import BenchTables.Proofs.Binary64.Rounding
import BenchTables.Proofs.Binary64.Scientific
import BenchTables.Proofs.Binary64.TotalOrder
import BenchTables.Proofs.Binary64.Units
import BenchTables.Proofs.Command.Aggregate
import BenchTables.Proofs.Command.Agreement
import BenchTables.Proofs.Command.Failure
import BenchTables.Proofs.Command.Published
import BenchTables.Proofs.Command.Quiet
import BenchTables.Proofs.Command.QuietFlag
import BenchTables.Proofs.Command.Render
import BenchTables.Proofs.Command.RenderFailure
import BenchTables.Proofs.Command.Repetition
import BenchTables.Proofs.Command.ZeroRate
import BenchTables.Proofs.Condensed.Acceptance
import BenchTables.Proofs.Condensed.Arithmetic
import BenchTables.Proofs.Condensed.Draft
import BenchTables.Proofs.Condensed.Interleaving
import BenchTables.Proofs.Condensed.Kind
import BenchTables.Proofs.Condensed.Order
import BenchTables.Proofs.Condensed.RoundTrip
import BenchTables.Proofs.Condensed.Sorted
import BenchTables.Proofs.Condensed.Stored
import BenchTables.Proofs.Condensed.Tables
import BenchTables.Proofs.Condensed.ZeroRate
import BenchTables.Proofs.Csv.Checking
import BenchTables.Proofs.Csv.Encoding
import BenchTables.Proofs.Csv.RoundTrip
import BenchTables.Proofs.Csv.Spans
import BenchTables.Proofs.Csv.Splitting
import BenchTables.Proofs.Csv.TableEncoding
import BenchTables.Proofs.Csv.WrittenTable
import BenchTables.Proofs.Decimal.Denotation
import BenchTables.Proofs.Decimal.Digits
import BenchTables.Proofs.Decimal.Magnitude
import BenchTables.Proofs.Decimal.NearestEven
import BenchTables.Proofs.Decimal.Printed
import BenchTables.Proofs.Decimal.Shortest
import BenchTables.Proofs.Decimal.TwoPlaces
import BenchTables.Proofs.Experiment.Configuration
import BenchTables.Proofs.Experiment.Grouping
import BenchTables.Proofs.Experiment.Identifier
import BenchTables.Proofs.Experiment.IntegerMeans
import BenchTables.Proofs.Experiment.Interleaving
import BenchTables.Proofs.Experiment.Ledger
import BenchTables.Proofs.Experiment.Overflow
import BenchTables.Proofs.Experiment.Rate
import BenchTables.Proofs.Experiment.Report
import BenchTables.Proofs.Experiment.RowSelection
import BenchTables.Proofs.Experiment.Selection
import BenchTables.Proofs.Experiment.Size
import BenchTables.Proofs.Files.Places
import BenchTables.Proofs.Files.Rewriting
import BenchTables.Proofs.Files.Stopping
import BenchTables.Proofs.Files.Writing
import BenchTables.Proofs.Json.Number
import BenchTables.Proofs.Json.Reader
import BenchTables.Proofs.Json.RoundTrip
import BenchTables.Proofs.Latex.Balance
import BenchTables.Proofs.Latex.Environment
import BenchTables.Proofs.Latex.Gaps
import BenchTables.Proofs.Latex.Grid
import BenchTables.Proofs.Latex.Markup
import BenchTables.Proofs.Latex.RateLines
import BenchTables.Proofs.Latex.Refusal
import BenchTables.Proofs.Latex.RoundTripLayout
import BenchTables.Proofs.Latex.SharedTimes
import BenchTables.Proofs.Latex.SizeColumns
import BenchTables.Proofs.Lookup
import BenchTables.Proofs.Measurement.Acceptance
import BenchTables.Proofs.Measurement.ColumnOrder
import BenchTables.Proofs.Measurement.Count
import BenchTables.Proofs.Measurement.Lines
import BenchTables.Proofs.Measurement.Reader
import BenchTables.Proofs.Measurement.Record
import BenchTables.Proofs.Outcome
import BenchTables.Proofs.SideBySide
import BenchTables.Proofs.Sorting
import BenchTables.Proofs.Text.Ascii
import BenchTables.Proofs.Text.Decoding
import BenchTables.Proofs.Text.Padding
import BenchTables.Session
import BenchTables.Table.Columns
import BenchTables.Table.Distinct
import BenchTables.Table.Error
import BenchTables.Table.File
import BenchTables.Text.Alphanumeric
import BenchTables.Text.Blank
import BenchTables.Text.Utf8
