import RowGraph.Datum
import RowGraph.Datum.Merge
import RowGraph.Decimal.Layout
import RowGraph.Decimal.Nearest
import RowGraph.Decimal.Shortest
import RowGraph.Error
import RowGraph.Execution.Arguments
import RowGraph.Execution.Commit
import RowGraph.Execution.Complete
import RowGraph.Execution.Describe
import RowGraph.Execution.Inquiry
import RowGraph.Execution.Outcome
import RowGraph.Execution.Overview
import RowGraph.Execution.Request
import RowGraph.Execution.Resolve
import RowGraph.Execution.Run
import RowGraph.Execution.Selections
import RowGraph.Execution.Tree
import RowGraph.Json
import RowGraph.Json.Reader
import RowGraph.Language.Cursor
import RowGraph.Language.Definition
import RowGraph.Language.Grammar
import RowGraph.Language.Literal
import RowGraph.Language.OperationKind
import RowGraph.Language.Query
import RowGraph.Language.Quotation
import RowGraph.Language.TypeExpr
import RowGraph.Members
import RowGraph.Number
import RowGraph.Ordered
import RowGraph.Response
import RowGraph.Schema.Blueprint
import RowGraph.Schema.Builtin
import RowGraph.Schema.Catalog
import RowGraph.Schema.Derivation
import RowGraph.Schema.Document
import RowGraph.Schema.FieldMap
import RowGraph.Schema.Problem
import RowGraph.Schema.Resolver
import RowGraph.Schema.Settings
import RowGraph.Schema.Shape
import RowGraph.Session
import RowGraph.Store.Operation
import RowGraph.Store.Error
import RowGraph.Store.Key
import RowGraph.Store.Memory
import RowGraph.Store.Traced
import RowGraph.Text.Printable
import RowGraph.Text.Quoted
import RowGraph.Validation.Findings
import RowGraph.Validation.InputValue
import RowGraph.Validation.Overlap
import RowGraph.Validation.Request
import RowGraph.Validation.Walk
import RowGraph.Value
import RowGraph.Value.Datum
import RowGraph.Versionstamp
import RowGraph.Versionstamp.Datum
import RowGraph.Proofs.Store.Chronicle
import RowGraph.Proofs.Store.History
import RowGraph.Proofs.Mutation.Items
import RowGraph.Proofs.Mutation.Transaction
import RowGraph.Proofs.Schema.Built
import RowGraph.Proofs.Mutation.Atomic
import RowGraph.Proofs.Propagation.Watch
import RowGraph.Proofs.Execution.Inquiry
import RowGraph.Proofs.Execution.Arguments
import RowGraph.Proofs.Propagation.Law
import RowGraph.Proofs.Execution.Resolve
import RowGraph.Proofs.Execution.Declared
import RowGraph.Proofs.Propagation.Absorption
import RowGraph.Proofs.Concurrency.Optimistic
import RowGraph.Proofs.Mutation.Counted
import RowGraph.Proofs.Placement.Ways
import RowGraph.Proofs.Response.Matching
import RowGraph.Proofs.Response.NonNull
import RowGraph.Proofs.Propagation.Upright
import RowGraph.Proofs.Mutation.Receipts
import RowGraph.Proofs.Reference.Direct
import RowGraph.Proofs.Reference.Mirror
import RowGraph.Proofs.Reference.Description
import RowGraph.Proofs.Reference.Links
import RowGraph.Proofs.Reference.Selections
import RowGraph.Proofs.Reference.Root
import RowGraph.Proofs.Reference.Requests
import RowGraph.Proofs.Reference.Compose
import RowGraph.Proofs.Schema.Finished
import RowGraph.Proofs.Validation.Reports
import RowGraph.Proofs.Soundness.Faults
import RowGraph.Proofs.Soundness.Outcomes
import RowGraph.Proofs.Soundness.Requests
import RowGraph.Proofs.Schema.Wrapping
import RowGraph.Proofs.Schema.Coverage
import RowGraph.Proofs.Schema.Reordering
import RowGraph.Proofs.Schema.Writing
import RowGraph.Proofs.Execution.Alike
import RowGraph.Proofs.Mutation.ReadBack
import RowGraph.Proofs.Tandem.Masking
import RowGraph.Proofs.Tandem.Framed
import RowGraph.Proofs.Tandem.Interchange
import RowGraph.Proofs.Tandem.Coercion
import RowGraph.Proofs.Store.Settling
import RowGraph.Proofs.Mutation.Guarded
import RowGraph.Proofs.Mutation.Overruled
import RowGraph.Proofs.Mutation.Ordering
import RowGraph.Proofs.Reading.Keys
import RowGraph.Proofs.Listing.References
import RowGraph.Proofs.Listing.Lookups
import RowGraph.Proofs.Schema.Classification
import RowGraph.Proofs.Schema.Analysis
import RowGraph.Proofs.Execution.Newcomer
import RowGraph.Proofs.Hooks.Guarding
import RowGraph.Proofs.Versionstamp.Codec
import RowGraph.Proofs.Value.Written
import RowGraph.Proofs.Propagation.Spelling
import RowGraph.Proofs.Schema.Flat
