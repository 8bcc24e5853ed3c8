import LazyFrame.Bound
import LazyFrame.Catalog
import LazyFrame.Dialect.Basic
import LazyFrame.Dialect.Keywords
import LazyFrame.Dialogue.Basic
import LazyFrame.Dialogue.Failing
import LazyFrame.Expr.Basic
import LazyFrame.Expr.Given
import LazyFrame.Fault
import LazyFrame.Frame.Basic
import LazyFrame.Frame.Memo
import LazyFrame.Frame.Traffic
import LazyFrame.Grid
import LazyFrame.Instant
import LazyFrame.Json.Reader
import LazyFrame.Json.Writer
import LazyFrame.Log.Entry
import LazyFrame.Number.Basic
import LazyFrame.Number.Reader
import LazyFrame.Number.Shortest
import LazyFrame.Outside.Basic
import LazyFrame.Outside.Scripted
import LazyFrame.Plan.Basic
import LazyFrame.Plan.Merge
import LazyFrame.Plan.Operations
import LazyFrame.Plan.Window
import LazyFrame.Postgres.Pool
import LazyFrame.Proofs.Asking
import LazyFrame.Proofs.Attempt
import LazyFrame.Proofs.Faults.Building
import LazyFrame.Proofs.Faults.Proper
import LazyFrame.Proofs.Faults.Reading
import LazyFrame.Proofs.Faults.Request
import LazyFrame.Proofs.Frame.Coalescing
import LazyFrame.Proofs.Frame.Fetching
import LazyFrame.Proofs.Identity.Build
import LazyFrame.Proofs.Identity.Loading
import LazyFrame.Proofs.Identity.Operations
import LazyFrame.Proofs.Identity.Relabelled
import LazyFrame.Proofs.Number.Numeral
import LazyFrame.Proofs.Number.Whole
import LazyFrame.Proofs.Postgres.QualifiedName
import LazyFrame.Proofs.Rows.Basic
import LazyFrame.Proofs.Rows.Merge
import LazyFrame.Proofs.Rows.Multiplicity
import LazyFrame.Proofs.Rows.Operations
import LazyFrame.Proofs.Rows.Padding
import LazyFrame.Proofs.Rows.Pipeline
import LazyFrame.Proofs.Rows.Reading
import LazyFrame.Proofs.Rows.Reference
import LazyFrame.Proofs.Rows.Table
import LazyFrame.Proofs.Scope.Folding
import LazyFrame.Proofs.Scope.Operations
import LazyFrame.Proofs.Scope.Preservation
import LazyFrame.Proofs.Scope.Session
import LazyFrame.Proofs.Scope.Substitution
import LazyFrame.Proofs.Scope.WellFormed
import LazyFrame.Proofs.Spec.Canonical
import LazyFrame.Proofs.Spec.Fields
import LazyFrame.Proofs.Spec.Grammar
import LazyFrame.Proofs.Spec.Reading
import LazyFrame.Proofs.Sql.Confinement
import LazyFrame.Proofs.Sql.Hygiene
import LazyFrame.Proofs.Sql.Lexer
import LazyFrame.Proofs.Sql.Reads
import LazyFrame.Proofs.Sql.Renders
import LazyFrame.Proofs.Sql.Scope
import LazyFrame.Proofs.Sql.Spelling
import LazyFrame.Proofs.Sql.Writable
import LazyFrame.Recency
import LazyFrame.Relation
import LazyFrame.Service.Address
import LazyFrame.Service.Handler
import LazyFrame.Service.Parameters
import LazyFrame.Service.Request
import LazyFrame.Service.Target
import LazyFrame.Settings
import LazyFrame.Spec.Basic
import LazyFrame.Spec.Build
import LazyFrame.Spec.Parser
import LazyFrame.Spec.Written
import LazyFrame.Sql.Alias
import LazyFrame.Sql.Reported
import LazyFrame.Sql.Resolve
import LazyFrame.Sql.Statement
import LazyFrame.Text.Blank
import LazyFrame.Text.Cased
import LazyFrame.Text.LowerCase
import LazyFrame.Text.Percent
import LazyFrame.Text.Units
import LazyFrame.Value.Basic
import LazyFrame.Value.Key
import LazyFrame.Value.Parts
import LazyFrame.Value.Text
import LazyFrame.Proofs.Rows.Stacking
import LazyFrame.Proofs.Rows.Equijoin
import LazyFrame.Proofs.Rows.Faithful
import LazyFrame.Proofs.Scope.Descent
import LazyFrame.Proofs.Rows.Descent
import LazyFrame.Proofs.Service.Errand
import LazyFrame.Proofs.Service.Lookup
import LazyFrame.Proofs.Number.Rounding
import LazyFrame.Proofs.Service.Freshness
import LazyFrame.Proofs.Recency
import LazyFrame.Proofs.Service.Visit
import LazyFrame.Proofs.Service.Caching
import LazyFrame.Proofs.Scope.Merging
import LazyFrame.Proofs.Sql.EarlyCheck
import LazyFrame.Proofs.Rows.Summaries
import LazyFrame.Proofs.Sql.Reader
import LazyFrame.Proofs.Sql.Unambiguous
import LazyFrame.Proofs.Sql.Supply
import LazyFrame.Proofs.Sql.Drawing
import LazyFrame.Proofs.Sql.BareAliases
import LazyFrame.Proofs.Spec.Renaming
import LazyFrame.Proofs.Number.Plain
import LazyFrame.Proofs.Sql.Windows
import LazyFrame.Proofs.Service.Preview
import LazyFrame.Proofs.Grid
import LazyFrame.Proofs.Postgres.Leases
import LazyFrame.Proofs.Postgres.Interleaving
import LazyFrame.Proofs.Frame.Refusals
import LazyFrame.Proofs.Faults.Status
import LazyFrame.Proofs.Service.Verdicts
import LazyFrame.Proofs.Service.Logging
import LazyFrame.Proofs.Recency.History
import LazyFrame.Proofs.Number.Quotient
import LazyFrame.Proofs.Sql.Enumeration
import LazyFrame.Proofs.Rows.Replacement
