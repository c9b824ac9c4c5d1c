import Spreadsheet.Address
import Spreadsheet.Address.Bounds
import Spreadsheet.Address.Collection
import Spreadsheet.Address.LineEdit
import Spreadsheet.Address.Rectangle
import Spreadsheet.Command.Request
import Spreadsheet.Command.Run
import Spreadsheet.Data.Calendar
import Spreadsheet.Data.Datum
import Spreadsheet.Data.Json
import Spreadsheet.Data.Yaml.Cursor
import Spreadsheet.Data.Yaml.Document
import Spreadsheet.Data.Yaml.Fault
import Spreadsheet.Data.Yaml.Node
import Spreadsheet.Data.Yaml.Scalar
import Spreadsheet.Data.Yaml.Token
import Spreadsheet.Data.Yaml.Token.Scalar
import Spreadsheet.Data.Yaml.Tokens
import Spreadsheet.Data.Yaml.Value
import Spreadsheet.Files
import Spreadsheet.Formula.Basic
import Spreadsheet.Formula.Draft
import Spreadsheet.Formula.Evaluation
import Spreadsheet.Formula.ParseError
import Spreadsheet.Formula.Parser
import Spreadsheet.Formula.Printer
import Spreadsheet.Formula.Reads
import Spreadsheet.Formula.Shift
import Spreadsheet.Formula.Terminal
import Spreadsheet.Function.Apply
import Spreadsheet.Function.Operand
import Spreadsheet.Function.Signature
import Spreadsheet.Graph.Basic
import Spreadsheet.Graph.Cycle
import Spreadsheet.Graph.Schedule
import Spreadsheet.Log.Entry
import Spreadsheet.Log.Journal
import Spreadsheet.Log.Sink
import Spreadsheet.Log.Time
import Spreadsheet.Main
import Spreadsheet.Number.Basic
import Spreadsheet.Number.Binary64
import Spreadsheet.Number.Decimal
import Spreadsheet.Number.DigitLimit
import Spreadsheet.Number.Layout
import Spreadsheet.Number.Numeral
import Spreadsheet.Number.Power
import Spreadsheet.Number.Precision
import Spreadsheet.Number.Rounding
import Spreadsheet.Proofs.Address.Moves
import Spreadsheet.Proofs.Address.Naming
import Spreadsheet.Proofs.Address.Rectangle
import Spreadsheet.Proofs.Address.Spelling
import Spreadsheet.Proofs.Command.Resuming
import Spreadsheet.Proofs.Data.Json
import Spreadsheet.Proofs.Data.Json.Line
import Spreadsheet.Proofs.Data.Json.Torn
import Spreadsheet.Proofs.Except
import Spreadsheet.Proofs.Files
import Spreadsheet.Proofs.Formula.Checking
import Spreadsheet.Proofs.Formula.Completeness
import Spreadsheet.Proofs.Formula.Composition
import Spreadsheet.Proofs.Formula.Drafting
import Spreadsheet.Proofs.Formula.Expectations
import Spreadsheet.Proofs.Formula.FarColumns
import Spreadsheet.Proofs.Formula.Faults
import Spreadsheet.Proofs.Formula.FirstError
import Spreadsheet.Proofs.Formula.Guarding
import Spreadsheet.Proofs.Formula.Names
import Spreadsheet.Proofs.Formula.NumericRange
import Spreadsheet.Proofs.Formula.Parentheses
import Spreadsheet.Proofs.Formula.Parsed
import Spreadsheet.Proofs.Formula.Precision
import Spreadsheet.Proofs.Formula.Ranges
import Spreadsheet.Proofs.Formula.Respacing
import Spreadsheet.Proofs.Formula.Rewriting
import Spreadsheet.Proofs.Formula.RoundTrip
import Spreadsheet.Proofs.Formula.Scope
import Spreadsheet.Proofs.Formula.Soundness
import Spreadsheet.Proofs.Formula.Spelling
import Spreadsheet.Proofs.Formula.Straightening
import Spreadsheet.Proofs.Formula.Tokens
import Spreadsheet.Proofs.Formula.Transport
import Spreadsheet.Proofs.Formula.Traversal
import Spreadsheet.Proofs.Formula.Yielding
import Spreadsheet.Proofs.Function.Correspondence
import Spreadsheet.Proofs.Function.Overflow
import Spreadsheet.Proofs.Function.Rounding
import Spreadsheet.Proofs.Function.Yielding
import Spreadsheet.Proofs.Graph.Circuit
import Spreadsheet.Proofs.Graph.Deadlock
import Spreadsheet.Proofs.Graph.Edges
import Spreadsheet.Proofs.Graph.Indices
import Spreadsheet.Proofs.Graph.Order
import Spreadsheet.Proofs.Graph.Paths
import Spreadsheet.Proofs.Graph.Schedule
import Spreadsheet.Proofs.Log.Journal
import Spreadsheet.Proofs.Log.Sink
import Spreadsheet.Proofs.Number.Digits
import Spreadsheet.Proofs.Number.Multiple
import Spreadsheet.Proofs.Number.Nearest
import Spreadsheet.Proofs.Number.Shortest
import Spreadsheet.Proofs.Number.Significant
import Spreadsheet.Proofs.Number.Written
import Spreadsheet.Proofs.Session
import Spreadsheet.Proofs.Sheet.Ascending
import Spreadsheet.Proofs.Sheet.Atomicity
import Spreadsheet.Proofs.Sheet.Bounded
import Spreadsheet.Proofs.Sheet.Bulk
import Spreadsheet.Proofs.Sheet.Carrying
import Spreadsheet.Proofs.Sheet.Circularity
import Spreadsheet.Proofs.Sheet.Consistency
import Spreadsheet.Proofs.Sheet.Deletion
import Spreadsheet.Proofs.Sheet.Entering
import Spreadsheet.Proofs.Sheet.History
import Spreadsheet.Proofs.Sheet.Insertion
import Spreadsheet.Proofs.Sheet.Listing
import Spreadsheet.Proofs.Sheet.MovedContents
import Spreadsheet.Proofs.Sheet.Moving
import Spreadsheet.Proofs.Sheet.Origin
import Spreadsheet.Proofs.Sheet.Pinning
import Spreadsheet.Proofs.Sheet.Recalculation
import Spreadsheet.Proofs.Sheet.Refresh
import Spreadsheet.Proofs.Sheet.Reload
import Spreadsheet.Proofs.Sheet.Relocation
import Spreadsheet.Proofs.Sheet.Reporting
import Spreadsheet.Proofs.Sheet.Saving
import Spreadsheet.Proofs.Sheet.Setting
import Spreadsheet.Proofs.Sheet.Staging
import Spreadsheet.Proofs.Sheet.Structure
import Spreadsheet.Proofs.Sheet.Telling
import Spreadsheet.Proofs.Sheet.Undoing
import Spreadsheet.Proofs.Sheet.Unfailing
import Spreadsheet.Proofs.Text.Lines
import Spreadsheet.Proofs.Text.Runs
import Spreadsheet.Session
import Spreadsheet.Settings.Basic
import Spreadsheet.Settings.File
import Spreadsheet.Sheet.Basic
import Spreadsheet.Sheet.Calculation
import Spreadsheet.Sheet.Diagnostic
import Spreadsheet.Sheet.Edit
import Spreadsheet.Sheet.Lines
import Spreadsheet.Text.Blank
import Spreadsheet.Text.Case
import Spreadsheet.Text.CaseTables
import Spreadsheet.Text.Control
import Spreadsheet.Text.Digit
import Spreadsheet.Text.Printable
import Spreadsheet.Text.Quoted
import Spreadsheet.Value
