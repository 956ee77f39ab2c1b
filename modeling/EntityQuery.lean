import EntityQuery.Binary64.Basic
import EntityQuery.Binary64.Decimal
import EntityQuery.Context
import EntityQuery.Defect
import EntityQuery.Entries
import EntityQuery.Execution.Answer
import EntityQuery.Execution.Attempt
import EntityQuery.Execution.Completion
import EntityQuery.Execution.Engine
import EntityQuery.Execution.Report
import EntityQuery.Failure.Basic
import EntityQuery.Failure.Masking
import EntityQuery.Json.Basic
import EntityQuery.Json.Literal
import EntityQuery.Json.Position
import EntityQuery.Name
import EntityQuery.Promise.Combinators
import EntityQuery.Promise.Machine
import EntityQuery.Promise.Steps
import EntityQuery.Proofs.Execution.Agreement
import EntityQuery.Proofs.Execution.Alongside
import EntityQuery.Proofs.Execution.Answering
import EntityQuery.Proofs.Execution.Completing
import EntityQuery.Proofs.Execution.Concluding
import EntityQuery.Proofs.Execution.Defects
import EntityQuery.Proofs.Execution.Discretion
import EntityQuery.Proofs.Execution.Evaluation
import EntityQuery.Proofs.Execution.Fields
import EntityQuery.Proofs.Execution.Meaning
import EntityQuery.Proofs.Execution.Terms
import EntityQuery.Proofs.Failure.Likeness
import EntityQuery.Proofs.Promise.Alongside
import EntityQuery.Proofs.Promise.Does
import EntityQuery.Proofs.Promise.Draining
import EntityQuery.Proofs.Promise.Ending
import EntityQuery.Proofs.Promise.Gathering
import EntityQuery.Proofs.Promise.Heap
import EntityQuery.Proofs.Promise.Lockstep
import EntityQuery.Proofs.Promise.Thread
import EntityQuery.Proofs.Promise.Total
import EntityQuery.Proofs.Schema.Fitting
import EntityQuery.Proofs.Schema.History
import EntityQuery.Proofs.Schema.Likeness
import EntityQuery.Proofs.Schema.Reading
import EntityQuery.Proofs.Schema.Registry
import EntityQuery.Proofs.Schema.Scanning
import EntityQuery.Proofs.Schema.Soundness
import EntityQuery.Proofs.Schema.Stability
import EntityQuery.Proofs.Schema.Traversal
import EntityQuery.Proofs.Validation.Coverage
import EntityQuery.Proofs.Validation.Disclosure
import EntityQuery.Request.Decoding
import EntityQuery.Request.Options
import EntityQuery.Request.Query
import EntityQuery.Schema.Assembly
import EntityQuery.Schema.Coercion
import EntityQuery.Schema.Loading
import EntityQuery.Schema.Resolution
import EntityQuery.Schema.Scan
import EntityQuery.Schema.Session
import EntityQuery.Summary
import EntityQuery.Text.Blank
import EntityQuery.Text.Ignorable
import EntityQuery.Text.Joining
import EntityQuery.Text.Quoted
import EntityQuery.Text.Ranges
import EntityQuery.Text.Unprintable
import EntityQuery.Typing.Builder
import EntityQuery.Typing.Callback
import EntityQuery.Typing.Draft
import EntityQuery.Typing.Entity
import EntityQuery.Typing.Expression
import EntityQuery.Typing.Reading
import EntityQuery.Typing.Reference
import EntityQuery.Typing.Scalar
import EntityQuery.Validation.Check
import EntityQuery.Validation.Rule
import EntityQuery.Warning
import EntityQuery.Proofs.Promise.Requests
import EntityQuery.Proofs.Promise.Tame
import EntityQuery.Proofs.Promise.Termination
import EntityQuery.Proofs.Promise.Program
import EntityQuery.Proofs.Promise.Plans
import EntityQuery.Proofs.Promise.Underway
import EntityQuery.Proofs.Promise.Upkeep
import EntityQuery.Proofs.Promise.Building
import EntityQuery.Proofs.Promise.Meaning
import EntityQuery.Proofs.Promise.Watching
import EntityQuery.Proofs.Promise.Arrivals
import EntityQuery.Proofs.Promise.Attendance
import EntityQuery.Proofs.Promise.Foreign
import EntityQuery.Proofs.Promise.Reactions
import EntityQuery.Proofs.Promise.Seating
import EntityQuery.Proofs.Promise.Combining
import EntityQuery.Proofs.Promise.Twins
import EntityQuery.Proofs.Execution.Calling
import EntityQuery.Proofs.Execution.Supplying
import EntityQuery.Proofs.Execution.Closing
import EntityQuery.Proofs.Execution.Once
import EntityQuery.Proofs.Execution.Outcomes
import EntityQuery.Proofs.Promise.Collecting
import EntityQuery.Proofs.Schema.Exploring
import EntityQuery.Proofs.Schema.Admission
import EntityQuery.Proofs.Schema.Deciding
import EntityQuery.Proofs.Schema.Counterpart
import EntityQuery.Proofs.Schema.Leftovers
import EntityQuery.Proofs.Schema.Reentry
import EntityQuery.Proofs.Promise.Mirror
import EntityQuery.Proofs.Promise.Mirroring
import EntityQuery.Proofs.Promise.Weaving
import EntityQuery.Proofs.Schema.Tandem
import EntityQuery.Proofs.Validation.Tandem
import EntityQuery.Proofs.Execution.Tandem
import EntityQuery.Proofs.Execution.Performing
import EntityQuery.Proofs.Execution.Purity
import EntityQuery.Proofs.Execution.Sharing
import EntityQuery.Proofs.Execution.Lazily
import EntityQuery.Proofs.Execution.Panics
import EntityQuery.Proofs.Validation.Findings
import EntityQuery.Proofs.Validation.Independence
import EntityQuery.Proofs.Schema.Scalars
import EntityQuery.Proofs.Schema.Shapes
import EntityQuery.Proofs.Schema.Recoercing
import EntityQuery.Proofs.Json.Numbers
import EntityQuery.Proofs.Json.Strings
import EntityQuery.Proofs.Json.Texts
import EntityQuery.Proofs.Json.Values
import EntityQuery.Proofs.Request.Fields
import EntityQuery.Proofs.Request.Spelling
import EntityQuery.Proofs.Request.Roundtrip
import EntityQuery.Proofs.Schema.Drafting
import EntityQuery.Proofs.Validation.Paths
import EntityQuery.Proofs.Execution.Gaps
import EntityQuery.Proofs.Execution.Auditing
import EntityQuery.Proofs.Execution.Slots
import EntityQuery.Proofs.Execution.Seeing
import EntityQuery.Proofs.Warning.Deliveries
import EntityQuery.Proofs.Typing.Building
import EntityQuery.Proofs.Promise.Chronicle
import EntityQuery.Proofs.Schema.Acquiring
import EntityQuery.Proofs.Schema.Abandoned
import EntityQuery.Proofs.Binary64.Values
import EntityQuery.Proofs.Text.Decimals
import EntityQuery.Proofs.Typing.Integers
