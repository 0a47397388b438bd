import Skein.Ascending
import Skein.Expr.Builtin
import Skein.Expr.Evaluate
import Skein.Expr.Expression
import Skein.Expr.Fault
import Skein.Expr.Host
import Skein.Expr.Lexeme
import Skein.Expr.Operator
import Skein.Expr.Postorder
import Skein.Expr.Sandbox
import Skein.Expr.Scope
import Skein.Expr.Stock
import Skein.Expr.Store
import Skein.Expr.Token
import Skein.Expr.Tokenize
import Skein.Json.Basic
import Skein.Json.Outline
import Skein.Json.Printer
import Skein.Json.Reader
import Skein.Number.Layout
import Skein.Number.Parts
import Skein.Number.Reading
import Skein.Number.Shortest
import Skein.Random.Generator
import Skein.Random.Keystream
import Skein.Stack
import Skein.Story.Binary.Bytes
import Skein.Story.Binary.Reader
import Skein.Story.Binary.Writer
import Skein.Story.Config
import Skein.Story.Content
import Skein.Story.Document.Names
import Skein.Story.Document.Reader
import Skein.Story.Document.Record
import Skein.Story.Document.Writer
import Skein.Story.Draft.Basic
import Skein.Story.Draft.Reader
import Skein.Story.Equality
import Skein.Story.Fault
import Skein.Story.Flow.Basic
import Skein.Story.Flow.Divert
import Skein.Story.Flow.Offer
import Skein.Story.Flow.Step
import Skein.Story.Frame
import Skein.Story.NodeId
import Skein.Story.Output
import Skein.Story.Play
import Skein.Story.Script
import Skein.Story.Sequence
import Skein.Story.State
import Skein.Story.Turn
import Skein.Table
import Skein.Text.Blank
import Skein.Text.Hex
import Skein.Text.Printable
import Skein.Text.Quoted
import Skein.Value.Apply
import Skein.Value.Basic
import Skein.Value.Operator
import Skein.Value.Registry
import Skein.Value.Selection
import Skein.Proofs.Expr.EvaluationOrder
import Skein.Proofs.Expr.Grouping
import Skein.Proofs.Contract
import Skein.Proofs.Coupling
import Skein.Proofs.Expr.Effects
import Skein.Proofs.Expr.DirectEvaluation
import Skein.Proofs.Expr.EvaluationAgreement
import Skein.Proofs.Expr.Lexing
import Skein.Proofs.Expr.Scopes
import Skein.Proofs.Expr.Aliases
import Skein.Proofs.Expr.Writes
import Skein.Proofs.Expr.Observers
import Skein.Proofs.Expr.Shadowing
import Skein.Proofs.Json.TextRoundTrip
import Skein.Proofs.Number.Digits
import Skein.Proofs.Story.BinaryRoundTrip
import Skein.Proofs.Story.BinaryTruncation
import Skein.Proofs.Story.Blindness
import Skein.Proofs.Story.Chronicle
import Skein.Proofs.Story.DocumentRecords
import Skein.Proofs.Story.DocumentRoundTrip
import Skein.Proofs.Story.Draws
import Skein.Proofs.Story.Events
import Skein.Proofs.Story.Frames
import Skein.Proofs.Story.GatherVisits
import Skein.Proofs.Story.Alignment
import Skein.Proofs.Story.Effects
import Skein.Proofs.Story.Lines
import Skein.Proofs.Story.Moves
import Skein.Proofs.Story.Nodes
import Skein.Proofs.Story.OnceOnly
import Skein.Proofs.Story.Pacing
import Skein.Proofs.Story.Parts
import Skein.Proofs.Story.Reachability
import Skein.Proofs.Story.References
import Skein.Proofs.Story.Seeds
import Skein.Proofs.Story.Segments
import Skein.Proofs.Story.Sequences
import Skein.Proofs.Story.Status
import Skein.Proofs.Story.Threads
import Skein.Proofs.Story.Visits
import Skein.Proofs.Text.Words
import Skein.Proofs.Value.Selections
import Skein.Proofs.Expr.ListSafety
import Skein.Proofs.Expr.Spelling
import Skein.Proofs.Expr.Tokenizing
import Skein.Proofs.Expr.Symbols
import Skein.Proofs.Story.Printing
import Skein.Proofs.Story.Resumption
import Skein.Proofs.Value.Shifting
import Skein.Proofs.Story.HostWrites
import Skein.Proofs.Expr.Parsing
import Skein.Proofs.Story.Offers
import Skein.Proofs.Story.Choosing
import Skein.Proofs.Story.PathRequests
import Skein.Proofs.Value.Complements
import Skein.Proofs.Value.Comparisons
import Skein.Proofs.Story.DrawBounds
import Skein.Proofs.Expr.Dispatch
import Skein.Proofs.Story.Guards
import Skein.Proofs.Story.CursorBounds
import Skein.Proofs.Story.Endings
import Skein.Proofs.Story.Drafting
import Skein.Proofs.Story.BinaryBounds
import Skein.Proofs.Expr.Literals
import Skein.Proofs.Value.Integers
