import Cuesheet.Assets
import Cuesheet.CommandLine.Arguments
import Cuesheet.CommandLine.Command
import Cuesheet.CommandLine.Run
import Cuesheet.Compile
import Cuesheet.Constants
import Cuesheet.Data.Dict
import Cuesheet.Diagnostic
import Cuesheet.Engine.Check
import Cuesheet.Engine.Config
import Cuesheet.Engine.Format
import Cuesheet.Engine.Numbering
import Cuesheet.Engine.Schema
import Cuesheet.Engine.SourceMap
import Cuesheet.Engine.Uuid
import Cuesheet.Expr.Basic
import Cuesheet.Expr.Fold
import Cuesheet.Expr.Format
import Cuesheet.File.Store
import Cuesheet.File.Text
import Cuesheet.Json.Basic
import Cuesheet.Json.Read
import Cuesheet.Json.Record
import Cuesheet.Json.Write
import Cuesheet.Library.Callable
import Cuesheet.Library.Documents
import Cuesheet.Library.Path
import Cuesheet.Location
import Cuesheet.Lowering.Block
import Cuesheet.Lowering.Draft
import Cuesheet.Lowering.Error
import Cuesheet.Lowering.Schedule
import Cuesheet.Lowering.Time
import Cuesheet.Lowering.Value
import Cuesheet.Main
import Cuesheet.Number.Dyadic
import Cuesheet.Number.Layout
import Cuesheet.Number.Shortest
import Cuesheet.Operation.Arguments
import Cuesheet.Operation.Audit
import Cuesheet.Operation.Catalogue
import Cuesheet.Operation.Dataflow
import Cuesheet.Operation.Manual
import Cuesheet.Operation.Runtime
import Cuesheet.Operation.Signature
import Cuesheet.Program.Action
import Cuesheet.Program.Basic
import Cuesheet.Proofs.Agreement
import Cuesheet.Proofs.Arguments
import Cuesheet.Proofs.Binding
import Cuesheet.Proofs.Brackets
import Cuesheet.Proofs.Callables.Configuration
import Cuesheet.Proofs.Callables.Definitions
import Cuesheet.Proofs.Callables.Helpers
import Cuesheet.Proofs.Causes
import Cuesheet.Proofs.Check
import Cuesheet.Proofs.Collections
import Cuesheet.Proofs.Complaints
import Cuesheet.Proofs.Conformance
import Cuesheet.Proofs.Constants
import Cuesheet.Proofs.Cues
import Cuesheet.Proofs.Dangling
import Cuesheet.Proofs.Dataflow
import Cuesheet.Proofs.Dict
import Cuesheet.Proofs.Except
import Cuesheet.Proofs.Folding
import Cuesheet.Proofs.Format.Numbers
import Cuesheet.Proofs.Format.RoundTrip
import Cuesheet.Proofs.Globals
import Cuesheet.Proofs.Imports.Chain
import Cuesheet.Proofs.Imports.Order
import Cuesheet.Proofs.Imports.Plain
import Cuesheet.Proofs.Imports.Resolution
import Cuesheet.Proofs.Initialisers
import Cuesheet.Proofs.Isolation
import Cuesheet.Proofs.Layout
import Cuesheet.Proofs.LoopItem
import Cuesheet.Proofs.Nesting
import Cuesheet.Proofs.Number
import Cuesheet.Proofs.Numbering
import Cuesheet.Proofs.Operators.Condition
import Cuesheet.Proofs.Operators.Leaf
import Cuesheet.Proofs.Operators.Marker
import Cuesheet.Proofs.Operators.Operands
import Cuesheet.Proofs.Operators.Reader
import Cuesheet.Proofs.Path
import Cuesheet.Proofs.Places
import Cuesheet.Proofs.Precedence
import Cuesheet.Proofs.References
import Cuesheet.Proofs.Relative
import Cuesheet.Proofs.Renaming
import Cuesheet.Proofs.Reordering
import Cuesheet.Proofs.Schedule
import Cuesheet.Proofs.Seeding
import Cuesheet.Proofs.Separator
import Cuesheet.Proofs.Shape
import Cuesheet.Proofs.Sites.Block
import Cuesheet.Proofs.Sites.Program
import Cuesheet.Proofs.Slots
import Cuesheet.Proofs.SourceMap
import Cuesheet.Proofs.Text.ByteOrder
import Cuesheet.Proofs.Text.EditDistance
import Cuesheet.Proofs.Text.Suggestion
import Cuesheet.Proofs.Walk
import Cuesheet.Proofs.Windows
import Cuesheet.Scope
import Cuesheet.Settings
import Cuesheet.Stmt.Basic
import Cuesheet.Stmt.Format
import Cuesheet.Text.Blank
import Cuesheet.Text.CaseTable
import Cuesheet.Text.Lowercase
import Cuesheet.Text.Suggest
import Cuesheet.Timeline.Basic
import Cuesheet.Timeline.Time
