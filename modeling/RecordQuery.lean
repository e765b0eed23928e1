import RecordQuery.Text.Blank
import RecordQuery.Text.CaseTable
import RecordQuery.Text.Case
import RecordQuery.Text.Natural
import RecordQuery.Text.Pieces
import RecordQuery.Text.Hexadecimal
import RecordQuery.Double.Parts
import RecordQuery.Double.Rounding
import RecordQuery.Decimal.Digits
import RecordQuery.Decimal.Shortest
import RecordQuery.Decimal.Layout
import RecordQuery.Decimal.Reading
import RecordQuery.Number
import RecordQuery.Value
import RecordQuery.Value.Order
import RecordQuery.Record
import RecordQuery.Error
import RecordQuery.FieldPath
import RecordQuery.Json.Token
import RecordQuery.Json.Reading
import RecordQuery.Json.Writing
import RecordQuery.Regex
import RecordQuery.LikePattern
import RecordQuery.Operator
import RecordQuery.Condition
import RecordQuery.Condition.Draft
import RecordQuery.Digest.Sha256
import RecordQuery.Calendar.Date
import RecordQuery.Calendar.Reading
import RecordQuery.Calendar.Format
import RecordQuery.Ambient
import RecordQuery.Call.Kind
import RecordQuery.Call
import RecordQuery.Call.Scalar
import RecordQuery.Call.Aggregate
import RecordQuery.Call.Evaluation
import RecordQuery.Token
import RecordQuery.Token.Scan
import RecordQuery.Token.Lexeme
import RecordQuery.Locator
import RecordQuery.Query
import RecordQuery.Draft
import RecordQuery.Statement.Literal
import RecordQuery.Statement.Clause
import RecordQuery.Statement.Step
import RecordQuery.Statement.Call
import RecordQuery.Statement.Reading
import RecordQuery.Statement
import RecordQuery.Plan
import RecordQuery.Rows
import RecordQuery.Rows.Projection
import RecordQuery.Rows.Grouping
import RecordQuery.Rows.Ordering
import RecordQuery.Rows.Join
import RecordQuery.Source
import RecordQuery.Source.Files
import RecordQuery.Result
import RecordQuery.Query.Execution
import RecordQuery.Query.Sameness
import RecordQuery.Toml
import RecordQuery.Toml.Token
import RecordQuery.Toml.Scalar
import RecordQuery.Toml.Reading
import RecordQuery.Toml.Text
import RecordQuery.Settings
import RecordQuery.Output.Cell
import RecordQuery.Output.Csv
import RecordQuery.Output.Style
import RecordQuery.Output.Table
import RecordQuery.Output
import RecordQuery.CommandLine.Arguments
import RecordQuery.CommandLine.Help
import RecordQuery.CommandLine
import RecordQuery.Main
import RecordQuery.Proofs.Double.Order
import RecordQuery.Proofs.Double.Rounding
import RecordQuery.Proofs.Double.Integer
import RecordQuery.Proofs.Double.SortKey
import RecordQuery.Proofs.Double.Addition
import RecordQuery.Proofs.Value.SortOrder
import RecordQuery.Proofs.Value.Preorder
import RecordQuery.Proofs.FieldPath.Lenient
import RecordQuery.Proofs.Rows.Collect
import RecordQuery.Proofs.Record.Keys
import RecordQuery.Proofs.Rows.Page
import RecordQuery.Proofs.Ordering.Stable
import RecordQuery.Proofs.Ordering.Keys
import RecordQuery.Proofs.Ordering.Successive
import RecordQuery.Proofs.Plan.Stage
import RecordQuery.Proofs.Join.Index
import RecordQuery.Proofs.Join.Relation
import RecordQuery.Proofs.Join.Stream
import RecordQuery.Proofs.Plan.Errors
import RecordQuery.Proofs.Plan.Paging
import RecordQuery.Proofs.Plan.Ordering
import RecordQuery.Proofs.Result.Freeze
import RecordQuery.Proofs.Decimal.Digits
import RecordQuery.Proofs.Json.Token
import RecordQuery.Proofs.Json.Value
import RecordQuery.Proofs.Json.Injective
import RecordQuery.Proofs.Grouping.Bucket
import RecordQuery.Proofs.Grouping.Partition
import RecordQuery.Proofs.Grouping.Aggregate
import RecordQuery.Proofs.Aggregate.Incremental
import RecordQuery.Proofs.Condition.Meaning
import RecordQuery.Proofs.Condition.Building
import RecordQuery.Proofs.Condition.Links
import RecordQuery.Proofs.Condition.Like
import RecordQuery.Proofs.Condition.Grammar
import RecordQuery.Proofs.Statement.Reader
import RecordQuery.Proofs.Statement.Move
import RecordQuery.Proofs.Statement.Draft
import RecordQuery.Proofs.Statement.Levels
import RecordQuery.Proofs.Statement.Kept
import RecordQuery.Proofs.Draft.Reached
import RecordQuery.Proofs.Draft.Changes
import RecordQuery.Proofs.Draft.Names
import RecordQuery.Proofs.Condition.Reading
import RecordQuery.Proofs.Condition.Recognition
import RecordQuery.Proofs.Condition.Clause
import RecordQuery.Proofs.Text.Blank
import RecordQuery.Proofs.Token.Path
import RecordQuery.Proofs.Token.Trim
import RecordQuery.Proofs.Token.Piece
import RecordQuery.Proofs.Token.Cut
import RecordQuery.Proofs.Token.Balance
import RecordQuery.Proofs.Token.Origin
import RecordQuery.Proofs.Number.Spelling
import RecordQuery.Proofs.FieldPath.Comma
import RecordQuery.Proofs.Canonical.Literal
import RecordQuery.Proofs.Canonical.Call
import RecordQuery.Proofs.Canonical.Argument
import RecordQuery.Proofs.Condition.Settled
import RecordQuery.Proofs.Condition.Acceptance
import RecordQuery.Proofs.Canonical.Condition
import RecordQuery.Proofs.Canonical.Leads
import RecordQuery.Proofs.Canonical.Clause
import RecordQuery.Proofs.Canonical.Selection
import RecordQuery.Proofs.Canonical.Join
import RecordQuery.Proofs.Canonical.Query
import RecordQuery.Proofs.Canonical.Execution
import RecordQuery.Proofs.Canonical.Plain
import RecordQuery.Proofs.Canonical.Sound
import RecordQuery.Proofs.Canonical.Origin
import RecordQuery.Proofs.Canonical.Roundtrip
import RecordQuery.Proofs.Plan.Columns
import RecordQuery.Proofs.Draft.Writing
import RecordQuery.Proofs.Canonical.Rereading
import RecordQuery.Proofs.Json.Roundtrip
import RecordQuery.Proofs.Value.Symmetry
import RecordQuery.Proofs.FieldPath.Dotted
import RecordQuery.Proofs.Join.Written
import RecordQuery.Proofs.Token.Coverage
import RecordQuery.Proofs.Token.Shift
import RecordQuery.Proofs.Statement.Shift
import RecordQuery.Proofs.Statement.Locator
import RecordQuery.Proofs.Statement.Position
import RecordQuery.Proofs.Decimal.Interval
import RecordQuery.Proofs.Decimal.Shortest
import RecordQuery.Proofs.Decimal.Layout
import RecordQuery.Proofs.Json.Written
import RecordQuery.Proofs.Rows.Distinct
import RecordQuery.Proofs.Join.Outer
import RecordQuery.Proofs.Aggregate.Whole
import RecordQuery.Proofs.Draft.Refusal
import RecordQuery.Proofs.Call.Made
import RecordQuery.Proofs.Call.Ordinary
import RecordQuery.Proofs.Plan.Ordinary
import RecordQuery.Proofs.Draft.Calls
import RecordQuery.Proofs.Decimal.Order
import RecordQuery.Proofs.Text.Natural
import RecordQuery.Proofs.Value.Natural
import RecordQuery.Proofs.Double.Reading
import RecordQuery.Proofs.Value.Consistency
import RecordQuery.Proofs.Value.Transitivity
import RecordQuery.Proofs.Condition.Lenient
import RecordQuery.Proofs.FieldPath.Grammar
import RecordQuery.Proofs.Canonical.Value
import RecordQuery.Proofs.Canonical.Routes
import RecordQuery.Proofs.Double.Nearest
import RecordQuery.Proofs.Double.Scientific
import RecordQuery.Proofs.Decimal.Whole
import RecordQuery.Proofs.Canonical.Double
import RecordQuery.Proofs.Number.Recognition
import RecordQuery.Proofs.Locator.Reading
import RecordQuery.Proofs.Output.Csv
import RecordQuery.Proofs.Call.Pieces
import RecordQuery.Proofs.Record.Merge
import RecordQuery.Proofs.Record.History
import RecordQuery.Proofs.FieldPath.FirstName
import RecordQuery.Proofs.Join.Alias
import RecordQuery.Proofs.Draft.Pending
import RecordQuery.Proofs.Double.Value
import RecordQuery.Proofs.Double.Integral
import RecordQuery.Proofs.Call.Whole
