import StyleServer.Main
import StyleServer.Session.Basic
import StyleServer.Proofs.Piece.Append
import StyleServer.Proofs.Sheet.Clause
import StyleServer.Proofs.Sheet.Level
import StyleServer.Proofs.Sheet.Statement
import StyleServer.Proofs.Sheet.Layout
import StyleServer.Proofs.Sheet.Nesting
import StyleServer.Proofs.Sheet.Concat
import StyleServer.Proofs.Sheet.Plain
import StyleServer.Proofs.Sheet.Written
import StyleServer.Proofs.Sheet.ReadBack
import StyleServer.Proofs.Sheet.Completeness
import StyleServer.Proofs.Text.Lines
import StyleServer.Proofs.Sheet.Origin
import StyleServer.Proofs.Sheet.Fidelity
import StyleServer.Proofs.Sheet.Blocks
import StyleServer.Proofs.Piece.Blanked
import StyleServer.Proofs.Sheet.Comparison
import StyleServer.Proofs.Sheet.Comments
import StyleServer.Proofs.Sheet.ValueParts
import StyleServer.Proofs.Sheet.ValueStart
import StyleServer.Proofs.Sheet.CommentSpans
import StyleServer.Proofs.Sheet.ValueComments
import StyleServer.Proofs.Sheet.Lookup
import StyleServer.Proofs.Search.Order
import StyleServer.Proofs.Search.Canonical
import StyleServer.Proofs.Search.Cancellation
import StyleServer.Proofs.Search.Documents
import StyleServer.Proofs.Url.File
import StyleServer.Proofs.Disk.Listing
import StyleServer.Proofs.Workspace.Reading
import StyleServer.Proofs.Workspace.Listing
import StyleServer.Proofs.Search.Classes
import StyleServer.Proofs.Session.Documents
import StyleServer.Proofs.Check
import StyleServer.Proofs.Text.Offsets
import StyleServer.Proofs.Piece.Partition
import StyleServer.Proofs.Bytewise.Bytes
import StyleServer.Proofs.Bytewise.Scan
import StyleServer.Proofs.Bytewise.Comments
import StyleServer.Proofs.Bytewise.Statement
import StyleServer.Proofs.Bytewise.Parse
import StyleServer.Proofs.Bytewise.Lines
import StyleServer.Proofs.Bytewise.Document
import StyleServer.Proofs.Diagnostic.Braces
import StyleServer.Proofs.Diagnostic.Document
import StyleServer.Proofs.Completion.Context
import StyleServer.Proofs.Sheet.References
import StyleServer.Proofs.Sheet.ValueRefs
import StyleServer.Proofs.Completion.Front
import StyleServer.Proofs.Outline
import StyleServer.Proofs.Property.Registry
import StyleServer.Proofs.Property.Layers
import StyleServer.Proofs.Completion.Values
import StyleServer.Proofs.Hover
import StyleServer.Proofs.Markup.References
import StyleServer.Proofs.Text.Leftmost
import StyleServer.Proofs.Sheet.Occurrences
import StyleServer.Proofs.Markup.Context
import StyleServer.Proofs.Bytewise.Requests
import StyleServer.Proofs.Url.Path
import StyleServer.Proofs.Url.Place
import StyleServer.Proofs.Url.Import
