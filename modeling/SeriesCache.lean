import SeriesCache.Cache
import SeriesCache.Catalog
import SeriesCache.Dict
import SeriesCache.Json.Answer
import SeriesCache.Json.Scanner
import SeriesCache.Key.Basic
import SeriesCache.Key.Build
import SeriesCache.Key.Escape
import SeriesCache.Key.Reader
import SeriesCache.Number.Binary64
import SeriesCache.Number.Decimal
import SeriesCache.Number.Layout
import SeriesCache.Number.Shortest
import SeriesCache.Number.Signed
import SeriesCache.Options
import SeriesCache.Payload.Basic
import SeriesCache.Payload.Buffer
import SeriesCache.Payload.Bytes
import SeriesCache.Payload.Decode
import SeriesCache.Payload.Encode
import SeriesCache.Query.Condition
import SeriesCache.Query.Equality
import SeriesCache.Query.Fault
import SeriesCache.Query.Literal
import SeriesCache.Query.Name
import SeriesCache.Query.Operand
import SeriesCache.Query.Reader
import SeriesCache.Query.Select
import SeriesCache.Query.SelectReader
import SeriesCache.Request
import SeriesCache.Series.Answer
import SeriesCache.Series.Cell
import SeriesCache.Series.Fragment
import SeriesCache.Series.Table
import SeriesCache.Store
import SeriesCache.Text
import SeriesCache.Text.Shown
import SeriesCache.Text.Sorting
import SeriesCache.Text.Utf8
import SeriesCache.Text.Visible
import SeriesCache.Time.Calendar
import SeriesCache.Time.Duration
import SeriesCache.Time.Instant
import SeriesCache.Time.Precision
import SeriesCache.Time.Window
import SeriesCache.Proofs.Outcome
import SeriesCache.Proofs.Lists
import SeriesCache.Proofs.Dict
import SeriesCache.Proofs.Text.Utf8
import SeriesCache.Proofs.Text.Boundary
import SeriesCache.Proofs.Text.Sorting
import SeriesCache.Proofs.Key.Escape
import SeriesCache.Proofs.Key.RoundTrip
import SeriesCache.Proofs.Payload.Bytes
import SeriesCache.Proofs.Payload.Cells
import SeriesCache.Proofs.Payload.Framing
import SeriesCache.Proofs.Payload.KeyEnd
import SeriesCache.Proofs.Payload.RoundTrip
import SeriesCache.Proofs.Payload.Extent
import SeriesCache.Proofs.Payload.Image
import SeriesCache.Proofs.Payload.Series
import SeriesCache.Proofs.Payload.Kept
import SeriesCache.Proofs.Key.Canonical
import SeriesCache.Proofs.Series.Slice
import SeriesCache.Proofs.Series.Join
import SeriesCache.Proofs.Series.Alignment
import SeriesCache.Proofs.Series.Union
import SeriesCache.Proofs.Series.Fragments
import SeriesCache.Proofs.Series.Apart
import SeriesCache.Proofs.Series.Rows
import SeriesCache.Proofs.Series.Reassembly
import SeriesCache.Proofs.Series.Around
import SeriesCache.Proofs.Number.Signed
import SeriesCache.Proofs.Number.Rounding
import SeriesCache.Proofs.Number.Shortest
import SeriesCache.Proofs.Query.Bounds
import SeriesCache.Proofs.Query.Findings
import SeriesCache.Proofs.Query.Name
import SeriesCache.Proofs.Query.Reader
import SeriesCache.Proofs.Query.Quoting
import SeriesCache.Proofs.Query.Scan
import SeriesCache.Proofs.Number.Decimal
import SeriesCache.Proofs.Query.Duration
import SeriesCache.Proofs.Query.Operand
import SeriesCache.Proofs.Query.Printed
import SeriesCache.Proofs.Query.Signature
import SeriesCache.Proofs.Query.Window
import SeriesCache.Proofs.Query.Rewrite
import SeriesCache.Proofs.Query.Pruning
import SeriesCache.Proofs.Query.Walk
import SeriesCache.Proofs.Query.Timeless
import SeriesCache.Proofs.Query.Printing
import SeriesCache.Proofs.Query.Printing.Number
import SeriesCache.Proofs.Query.Printing.Float
import SeriesCache.Proofs.Query.Printing.Literal
import SeriesCache.Proofs.Query.Printing.Field
import SeriesCache.Proofs.Query.Printing.Clause
import SeriesCache.Proofs.Query.Printing.Select
import SeriesCache.Proofs.Query.InstantSum
import SeriesCache.Proofs.Query.Interval
import SeriesCache.Proofs.Json.Scanner
import SeriesCache.Proofs.Json.Cell
import SeriesCache.Proofs.Json.Answer
import SeriesCache.Proofs.Time.Calendar
import SeriesCache.Proofs.Time.Instant
import SeriesCache.Proofs.Cache.Steps
import SeriesCache.Proofs.Cache.Remainders
import SeriesCache.Proofs.Cache.Mirror
import SeriesCache.Proofs.Cache.Hosts
import SeriesCache.Proofs.Cache.Remembered
import SeriesCache.Proofs.Cache.Transparency
import SeriesCache.Proofs.Cache.Isolation
import SeriesCache.Proofs.Cache.Repeat
import SeriesCache.Proofs.Cache.Fetching
import SeriesCache.Proofs.Cache.Counts
import SeriesCache.Proofs.Cache.Effects
import SeriesCache.Proofs.Cache.Orphans
import SeriesCache.Proofs.Cache.Failures
import SeriesCache.Proofs.Cache.Spelled
import SeriesCache.Proofs.Cache.Inverted
