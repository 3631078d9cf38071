import RecordQuery.Expression.Compile
import RecordQuery.Filter.Merge
import RecordQuery.Filter.Validate
import RecordQuery.Filter.Wire
import RecordQuery.Request
import RecordQuery.Schema.Selection
import RecordQuery.Text.Uppercase
import RecordQuery.Proofs.Expression.Meaning
import RecordQuery.Proofs.Filter.Leaves
import RecordQuery.Proofs.Outcome
import RecordQuery.Proofs.Expression.Preservation
import RecordQuery.Proofs.Filter.Descent
import RecordQuery.Proofs.Filter.Shaping
import RecordQuery.Proofs.Filter.Building
import RecordQuery.Proofs.Filter.Canonical
import RecordQuery.Proofs.Filter.Reload
import RecordQuery.Proofs.Filter.Acceptance
import RecordQuery.Proofs.Filter.Agreement
import RecordQuery.Proofs.Filter.Guarding
import RecordQuery.Proofs.Schema.Descent
import RecordQuery.Proofs.Expression.Merging
import RecordQuery.Proofs.Expression.Progress
import RecordQuery.Proofs.Params.Paths
import RecordQuery.Proofs.Params.Growth
import RecordQuery.Proofs.Params.Attributes
import RecordQuery.Proofs.Params.Collecting
import RecordQuery.Proofs.Expression.Readability
import RecordQuery.Proofs.Filter.Embedding
import RecordQuery.Proofs.Params.Conflicts
import RecordQuery.Proofs.Params.Reordering
import RecordQuery.Proofs.Number.Digits
import RecordQuery.Proofs.Params.Faults
import RecordQuery.Proofs.Alike
import RecordQuery.Proofs.Filter.Spelling
import RecordQuery.Proofs.Params.Fragments
import RecordQuery.Proofs.Params.Spelling
import RecordQuery.Proofs.Request.Conjunction
import RecordQuery.Proofs.Request.Permission
import RecordQuery.Proofs.Text.Closest
import RecordQuery.Proofs.Text.Trimming
import RecordQuery.Proofs.Expression.Noninterference
import RecordQuery.Proofs.Schema.Depth
import RecordQuery.Proofs.Schema.Totality
import RecordQuery.Proofs.Params.Structure
import RecordQuery.Proofs.Number.Integers
import RecordQuery.Proofs.Number.Rows
import RecordQuery.Proofs.Params.Grammar
import RecordQuery.Proofs.Json.Overlong
import RecordQuery.Proofs.Calendar.Limits
import RecordQuery.Proofs.Value.Typing
import RecordQuery.Proofs.Params.Names
import RecordQuery.Proofs.Expression.Blanks
import RecordQuery.Proofs.Filter.Expansion
import RecordQuery.Proofs.Filter.Reporting
import RecordQuery.Proofs.Filter.Origins
import RecordQuery.Proofs.Expression.Enveloping
import RecordQuery.Proofs.Expression.Grouping
import RecordQuery.Proofs.Expression.Vacuity
import RecordQuery.Proofs.Filter.Blaming
import RecordQuery.Proofs.Schema.Defaults
import RecordQuery.Proofs.Text.Runs
import RecordQuery.Proofs.Filter.Dispatch
import RecordQuery.Proofs.Schema.Paths
import RecordQuery.Proofs.Request.Paging
