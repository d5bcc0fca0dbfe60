import Gradual.Main
import Gradual.Proofs.Lookup
import Gradual.Proofs.Scope.Search
import Gradual.Proofs.Scope.Lexical
import Gradual.Proofs.Source.Position
import Gradual.Proofs.Source.Lines
import Gradual.Proofs.Token.Steps
import Gradual.Proofs.Token.Cover
import Gradual.Proofs.Token.Comments
import Gradual.Proofs.Token.Stream
import Gradual.Proofs.Token.Layout
import Gradual.Proofs.Expr.Grammar
import Gradual.Proofs.Expr.Soundness
import Gradual.Proofs.Expr.Layout
import Gradual.Proofs.Expr.Places
import Gradual.Proofs.Expr.Printing
import Gradual.Proofs.Expr.RoundTrip
import Gradual.Proofs.Statement.Grammar
import Gradual.Proofs.Statement.Soundness
import Gradual.Proofs.Statement.Bounds
import Gradual.Proofs.Statement.Layout
import Gradual.Proofs.Statement.Suites
import Gradual.Proofs.Statement.Printing
import Gradual.Proofs.Statement.RoundTrip
import Gradual.Proofs.Ty.Order
import Gradual.Proofs.Ty.WellFormed
import Gradual.Proofs.Walk.Binders
import Gradual.Proofs.Walk.Returns
import Gradual.Proofs.Walk.Incomplete
import Gradual.Proofs.Walk.WellFormed
import Gradual.Proofs.Module.Calls
import Gradual.Proofs.Module.During
import Gradual.Proofs.Module.Isolation
import Gradual.Proofs.Module.Findings
import Gradual.Proofs.Module.Alarms
import Gradual.Proofs.Module.Forward
import Gradual.Proofs.Module.Verbosity
import Gradual.Proofs.Module.WellFormed
import Gradual.Proofs.Module.Constants
import Gradual.Proofs.Module.Hints
import Gradual.Proofs.Ty.Values
import Gradual.Proofs.Ty.Alternatives
import Gradual.Proofs.Call.Binding
import Gradual.Proofs.Ty.Merge
import Gradual.Proofs.Ty.Linear
import Gradual.Proofs.Call.Resolve
import Gradual.Proofs.Walk.Returned
import Gradual.Proofs.Walk.Missing
import Gradual.Proofs.Token.Run
import Gradual.Proofs.Token.BlankLines
import Gradual.Proofs.Token.Blocks
import Gradual.Proofs.Token.LineEnds
import Gradual.Proofs.Token.Boundary
import Gradual.Proofs.Token.Respacing
import Gradual.Proofs.Token.Paired
import Gradual.Proofs.Token.LineFeeds
import Gradual.Proofs.Token.Quoted
import Gradual.Proofs.Token.Numerals
import Gradual.Proofs.Command.Path
import Gradual.Proofs.Sample
import Gradual.Proofs.Command.Files
import Gradual.Proofs.Command.Samples
import Gradual.Proofs.Source.Span
import Gradual.Proofs.Token.Extent
import Gradual.Proofs.Expr.Spans
import Gradual.Proofs.Statement.Spans
import Gradual.Proofs.Token.Skipping
import Gradual.Proofs.Module.Mentioned
import Gradual.Proofs.Statement.Shape
