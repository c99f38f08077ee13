import ConicProgram.Action
import ConicProgram.Control.Controls
import ConicProgram.Control.Value
import ConicProgram.Decimal.Layout
import ConicProgram.Decimal.Shortest
import ConicProgram.Event
import ConicProgram.Failure
import ConicProgram.Json.Reader
import ConicProgram.Json.Record
import ConicProgram.Json.Writer
import ConicProgram.Loading.Cold
import ConicProgram.Loading.ConeMode
import ConicProgram.Loading.Instance
import ConicProgram.Model.Assembly
import ConicProgram.Model.Basic
import ConicProgram.Model.Column
import ConicProgram.Model.Cone
import ConicProgram.Model.Data
import ConicProgram.Optimizer.Basic
import ConicProgram.Optimizer.Branching
import ConicProgram.Optimizer.Engine
import ConicProgram.Optimizer.Error
import ConicProgram.Optimizer.Reference
import ConicProgram.OrderedMap
import ConicProgram.Problem.Basic
import ConicProgram.Problem.Document
import ConicProgram.Problem.Partition
import ConicProgram.Proofs.Action
import ConicProgram.Proofs.Json.Collections
import ConicProgram.Proofs.Json.Numbers
import ConicProgram.Proofs.Json.Reading
import ConicProgram.Proofs.Json.Records
import ConicProgram.Proofs.Json.Values
import ConicProgram.Proofs.Lists
import ConicProgram.Proofs.Loading.Agreement
import ConicProgram.Proofs.Loading.Canonical
import ConicProgram.Proofs.Loading.Cold
import ConicProgram.Proofs.Loading.Cones
import ConicProgram.Proofs.Loading.Linear
import ConicProgram.Proofs.Loading.Loaded
import ConicProgram.Proofs.Loading.Places
import ConicProgram.Proofs.Loading.Starts
import ConicProgram.Proofs.Loading.Validation
import ConicProgram.Proofs.Model.Agreement
import ConicProgram.Proofs.Model.Assembly
import ConicProgram.Proofs.Model.Closed
import ConicProgram.Proofs.Model.Feasibility
import ConicProgram.Proofs.Model.Frame
import ConicProgram.Proofs.Model.Heads
import ConicProgram.Proofs.Model.Loading
import ConicProgram.Proofs.Model.Rows
import ConicProgram.Proofs.Model.Scope
import ConicProgram.Proofs.Model.System
import ConicProgram.Proofs.Model.Writes
import ConicProgram.Proofs.Optimizer.Account
import ConicProgram.Proofs.Optimizer.Controls
import ConicProgram.Proofs.Optimizer.Duals
import ConicProgram.Proofs.Optimizer.Ending
import ConicProgram.Proofs.Optimizer.Freshness
import ConicProgram.Proofs.Optimizer.Nodes
import ConicProgram.Proofs.Optimizer.Operations
import ConicProgram.Proofs.Optimizer.Ranges
import ConicProgram.Proofs.Optimizer.Recording
import ConicProgram.Proofs.Optimizer.Reference
import ConicProgram.Proofs.Optimizer.Results
import ConicProgram.Proofs.Optimizer.Rounding
import ConicProgram.Proofs.Optimizer.Search
import ConicProgram.Proofs.Optimizer.Settling
import ConicProgram.Proofs.Optimizer.Solving
import ConicProgram.Proofs.Optimizer.Splitting
import ConicProgram.Proofs.Optimizer.Systems
import ConicProgram.Proofs.OrderedMap
import ConicProgram.Proofs.Problem.Data
import ConicProgram.Proofs.Problem.Document
import ConicProgram.Proofs.Problem.Valid
import ConicProgram.Proofs.Problem.WellFormed
import ConicProgram.Proofs.Scalar.Binary64
import ConicProgram.Proofs.Scalar.Exact
import ConicProgram.Proofs.Scalar.Numeric
import ConicProgram.Proofs.Scalar.Unital
import ConicProgram.Proofs.Session.Coherence
import ConicProgram.Proofs.Session.Document
import ConicProgram.Proofs.Session.Extraction
import ConicProgram.Proofs.Session.Independence
import ConicProgram.Proofs.Session.Keeping
import ConicProgram.Proofs.Session.Launching
import ConicProgram.Proofs.Session.Options
import ConicProgram.Proofs.Session.Requests
import ConicProgram.Proofs.Session.Solving
import ConicProgram.Proofs.Session.Steps
import ConicProgram.Proofs.Session.Vocabulary
import ConicProgram.Proofs.Sparse.Change
import ConicProgram.Proofs.Sparse.Columns
import ConicProgram.Proofs.Sparse.Difference
import ConicProgram.Proofs.Sparse.Entries
import ConicProgram.Proofs.Sparse.Filling
import ConicProgram.Proofs.Sparse.Format
import ConicProgram.Proofs.Sparse.Gathering
import ConicProgram.Proofs.Sparse.Product
import ConicProgram.Proofs.Sparse.Rows
import ConicProgram.Proofs.Sparse.Selection
import ConicProgram.Proofs.Sparse.Starts
import ConicProgram.Proofs.Sparse.Totals
import ConicProgram.Proofs.Sparse.Triplets
import ConicProgram.Proofs.Text.Bytes
import ConicProgram.Proofs.Warm.Chain
import ConicProgram.Proofs.Warm.Exactness
import ConicProgram.Proofs.Warm.Held
import ConicProgram.Proofs.Warm.Layout
import ConicProgram.Proofs.Warm.Plan
import ConicProgram.Proofs.Warm.Rollback
import ConicProgram.Proofs.Warm.Update
import ConicProgram.Scalar
import ConicProgram.Session.Basic
import ConicProgram.Session.Document
import ConicProgram.Session.Error
import ConicProgram.Session.Record
import ConicProgram.Session.Settings
import ConicProgram.Span
import ConicProgram.Sparse.Change
import ConicProgram.Sparse.Format
import ConicProgram.Sparse.Matrix
import ConicProgram.Sparse.Product
import ConicProgram.Sparse.Rows
import ConicProgram.Sparse.Starts
import ConicProgram.Sparse.Triplets
import ConicProgram.Status
import ConicProgram.Text.Blank
import ConicProgram.Text.Quoted
import ConicProgram.Text.Unprintable
import ConicProgram.Vector
import ConicProgram.Warm.Ineligible
import ConicProgram.Warm.Plan
import ConicProgram.Warm.Snapshot
