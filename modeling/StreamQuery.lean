import StreamQuery.About
import StreamQuery.Aggregate
import StreamQuery.Aggregate.Json
import StreamQuery.Aggregate.Reduction
import StreamQuery.Aggregate.Summary
import StreamQuery.Aggregation
import StreamQuery.Aggregation.CountDistinct
import StreamQuery.Aggregation.GroupBy
import StreamQuery.Bytes.Digest
import StreamQuery.Bytes.Frame
import StreamQuery.Bytes.LittleEndian
import StreamQuery.Error
import StreamQuery.Expansion
import StreamQuery.Expansion.Json
import StreamQuery.Expr
import StreamQuery.Expr.Eval
import StreamQuery.Expr.Json
import StreamQuery.Expr.Lookup
import StreamQuery.Json
import StreamQuery.Json.Alternative
import StreamQuery.Json.Decode
import StreamQuery.Json.Form
import StreamQuery.Json.Number
import StreamQuery.Json.Text
import StreamQuery.Json.Token
import StreamQuery.Keyed
import StreamQuery.Kind
import StreamQuery.Measure
import StreamQuery.MergeSort
import StreamQuery.Numeric.Binary
import StreamQuery.Numeric.Conversion
import StreamQuery.Numeric.FloatText
import StreamQuery.Numeric.IntegerText
import StreamQuery.Numeric.Number
import StreamQuery.Numeric.Power
import StreamQuery.Numeric.Shortest
import StreamQuery.Operator
import StreamQuery.Pipeline
import StreamQuery.Proofs.Aggregate.Accumulators
import StreamQuery.Proofs.Aggregate.Answers
import StreamQuery.Proofs.Aggregate.Refusals
import StreamQuery.Proofs.Aggregate.Running
import StreamQuery.Proofs.Aggregate.Valued
import StreamQuery.Proofs.Aggregation.Acceptance
import StreamQuery.Proofs.Aggregation.Counting
import StreamQuery.Proofs.Aggregation.Groups
import StreamQuery.Proofs.Aggregation.Naming
import StreamQuery.Proofs.Aggregation.Rereading
import StreamQuery.Proofs.Aggregation.Resetting
import StreamQuery.Proofs.Aggregation.Splitting
import StreamQuery.Proofs.Fold
import StreamQuery.Proofs.Json.Integers
import StreamQuery.Proofs.Json.Partials
import StreamQuery.Proofs.Json.Reading
import StreamQuery.Proofs.Json.Scanning
import StreamQuery.Proofs.Json.Structures
import StreamQuery.Proofs.Keyed
import StreamQuery.Proofs.Sample.Capacity
import StreamQuery.Proofs.Sample.Contents
import StreamQuery.Proofs.Sample.Family
import StreamQuery.Proofs.Sample.Histories
import StreamQuery.Proofs.Sample.Merge
import StreamQuery.Proofs.Sample.Offering
import StreamQuery.Proofs.Sample.Samples
import StreamQuery.Proofs.Sample.Smallest
import StreamQuery.Proofs.Sketch.Eager
import StreamQuery.Proofs.Sketch.Firsts
import StreamQuery.Proofs.Sketch.Gathers
import StreamQuery.Proofs.Sketch.Keeping
import StreamQuery.Proofs.Sketch.Mapped
import StreamQuery.Proofs.Sketch.Outcomes
import StreamQuery.Proofs.Sketch.Rereading
import StreamQuery.Query
import StreamQuery.Record
import StreamQuery.Settings
import StreamQuery.Settings.Document
import StreamQuery.Sketch
import StreamQuery.Sketch.Accuracy
import StreamQuery.Sketch.Encoding
import StreamQuery.Sketch.Group
import StreamQuery.Sketch.Lazy
import StreamQuery.Sketch.Parts
import StreamQuery.Sketch.Sample
import StreamQuery.Stage
import StreamQuery.Stage.Json
import StreamQuery.Text.Blank
import StreamQuery.Text.CapitalTable
import StreamQuery.Text.Letter
import StreamQuery.Transition
import StreamQuery.Value
import StreamQuery.Value.Arithmetic
import StreamQuery.Value.Canonical
import StreamQuery.Value.Cast
import StreamQuery.Value.Json
import StreamQuery.Value.Literal
import StreamQuery.Value.Order
import StreamQuery.Yaml.Cursor
import StreamQuery.Yaml.Document
import StreamQuery.Yaml.Scalar
import StreamQuery.Yaml.Tag
import StreamQuery.Yaml.Token
import StreamQuery.Proofs.Sketch.Refusing
import StreamQuery.Proofs.Aggregation.Rejection
import StreamQuery.Proofs.Aggregate.Regrouping
import StreamQuery.Proofs.Aggregation.Reading
import StreamQuery.Proofs.Json.Fractions
import StreamQuery.Proofs.Json.Values
import StreamQuery.Proofs.Sketch.Unfailing
import StreamQuery.Proofs.Aggregation.Shipping
import StreamQuery.Proofs.Sketch.Calls
import StreamQuery.Proofs.Numeric.Exactness
import StreamQuery.Proofs.Numeric.Rounding
import StreamQuery.Proofs.Pipeline.Meaning
import StreamQuery.Proofs.Value.Matching
import StreamQuery.Proofs.Value.Encoding
import StreamQuery.Proofs.Value.Equality
import StreamQuery.Proofs.Json.Buffers
import StreamQuery.Proofs.Numeric.Magnitudes
import StreamQuery.Proofs.Numeric.Nearest
import StreamQuery.Proofs.Numeric.Places
import StreamQuery.Proofs.Value.Ordering
import StreamQuery.Proofs.Aggregate.Extremes
import StreamQuery.Proofs.Numeric.Unpacked
import StreamQuery.Proofs.Numeric.Quotients
import StreamQuery.Proofs.Numeric.Means
import StreamQuery.Proofs.Aggregate.Means
import StreamQuery.Proofs.Pipeline.Sorting
import StreamQuery.Proofs.Sample.Exact
import StreamQuery.Proofs.Aggregate.Histories
import StreamQuery.Proofs.Aggregate.Separate
import StreamQuery.Proofs.Pipeline.Stability
import StreamQuery.Proofs.Pipeline.Fusion
import StreamQuery.Proofs.Expr.Comparisons
import StreamQuery.Proofs.Expansion.Rows
import StreamQuery.Proofs.Expr.Congruence
import StreamQuery.Proofs.Expr.Schemas
import StreamQuery.Proofs.Expr.Connectives
import StreamQuery.Proofs.Expr.NullTests
import StreamQuery.Proofs.Bytes.Frames
import StreamQuery.Proofs.Value.Integers
import StreamQuery.Proofs.Expr.Paths
import StreamQuery.Proofs.Json.Nesting
import StreamQuery.Proofs.Json.Declarations
import StreamQuery.Proofs.Numeric.Numerals
import StreamQuery.Proofs.Value.Texts
import StreamQuery.Proofs.Settings.Validity
import StreamQuery.Proofs.Settings.Entries
import StreamQuery.Proofs.Yaml.Gaps
import StreamQuery.Proofs.Yaml.Words
import StreamQuery.Proofs.Yaml.Lines
import StreamQuery.Proofs.Yaml.Mappings
import StreamQuery.Proofs.Yaml.Progress
import StreamQuery.Proofs.Yaml.Tokens
import StreamQuery.Proofs.Settings.Documents
import StreamQuery.Proofs.Text.Capitals
