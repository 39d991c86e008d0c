import Graft.Batch.Duplicate
import Graft.Batch.Files
import Graft.Batch.Report
import Graft.Batch.Run
import Graft.Batch.Sample
import Graft.Codec.Basic
import Graft.Codec.Config
import Graft.Codec.Document
import Graft.Codec.Report
import Graft.Codec.Splice
import Graft.Command.Arguments
import Graft.Command.Invocation
import Graft.Command.Run
import Graft.Command.Transcript
import Graft.Config.Basic
import Graft.Config.Reader
import Graft.Document.Basic
import Graft.Document.Diagnosis
import Graft.Document.Draft
import Graft.Document.Reader
import Graft.Document.Unwrap
import Graft.File.Path
import Graft.File.Store
import Graft.File.Tree
import Graft.Json.Basic
import Graft.Main
import Graft.Output.Module
import Graft.Output.Targets
import Graft.Output.Write
import Graft.Proofs.Batch.Accepted
import Graft.Proofs.Batch.Accounting
import Graft.Proofs.Batch.Conventional
import Graft.Proofs.Batch.Duplicate
import Graft.Proofs.Batch.Files
import Graft.Proofs.Batch.History
import Graft.Proofs.Batch.Isolation
import Graft.Proofs.Batch.Listing
import Graft.Proofs.Batch.Patching
import Graft.Proofs.Batch.Reading
import Graft.Proofs.Batch.Recognition
import Graft.Proofs.Batch.Rerun
import Graft.Proofs.Batch.Router
import Graft.Proofs.Batch.Setup
import Graft.Proofs.Batch.Uniqueness
import Graft.Proofs.Codec.RoundTrip
import Graft.Proofs.Codec.Table
import Graft.Proofs.Document.Diagnosis
import Graft.Proofs.Document.RoundTrip
import Graft.Proofs.Document.Unwrap
import Graft.Proofs.Document.Wrapping
import Graft.Proofs.File.Path
import Graft.Proofs.File.Store
import Graft.Proofs.File.Tree
import Graft.Proofs.Output.Module
import Graft.Proofs.Output.Spelling
import Graft.Proofs.Output.Targets
import Graft.Proofs.Output.Write
import Graft.Proofs.Record.Conventional
import Graft.Proofs.Record.Metadata
import Graft.Proofs.Record.Shape
import Graft.Proofs.Splice.Brackets
import Graft.Proofs.Splice.Contract
import Graft.Proofs.Splice.Declaration
import Graft.Proofs.Splice.Entries
import Graft.Proofs.Splice.Frame
import Graft.Proofs.Splice.Icons
import Graft.Proofs.Splice.Imports
import Graft.Proofs.Splice.Keys
import Graft.Proofs.Splice.Listing
import Graft.Proofs.Splice.Routes
import Graft.Proofs.Splice.Separation
import Graft.Proofs.Splice.Wildcard
import Graft.Proofs.Stepwise.Commented
import Graft.Proofs.Stepwise.Entries
import Graft.Proofs.Stepwise.Icons
import Graft.Proofs.Stepwise.Imports
import Graft.Proofs.Stepwise.Merging
import Graft.Proofs.Stepwise.Routes
import Graft.Proofs.Stepwise.Strategies
import Graft.Proofs.Text.Block
import Graft.Proofs.Text.Bytes
import Graft.Proofs.Text.Comment
import Graft.Proofs.Text.Identifier
import Graft.Proofs.Text.Insert
import Graft.Proofs.Text.Literal
import Graft.Proofs.Text.Occurrence
import Graft.Proofs.Text.Order
import Graft.Proofs.Text.Piece
import Graft.Proofs.Text.Reindent
import Graft.Proofs.Text.Solid
import Graft.Proofs.Text.Suffix
import Graft.Proofs.Text.Trim
import Graft.Proofs.Xml.Element
import Graft.Proofs.Xml.Layout
import Graft.Proofs.Xml.Neat
import Graft.Proofs.Xml.Prolog
import Graft.Proofs.Xml.Token
import Graft.Record.Basic
import Graft.Record.Metadata
import Graft.Splice.Anchor
import Graft.Splice.Engine
import Graft.Splice.Entries
import Graft.Splice.Icons
import Graft.Splice.Imports
import Graft.Splice.Kind
import Graft.Splice.Routes
import Graft.Splice.Settings
import Graft.Text.Basic
import Graft.Text.Comment
import Graft.Text.Indent
import Graft.Text.Line
import Graft.Text.Pattern
import Graft.Text.Search
import Graft.Text.Word
import Graft.Text.WordRanges
import Graft.Toml.Moment
import Graft.Toml.Number
import Graft.Toml.Quoted
import Graft.Toml.Reader
import Graft.Toml.Scan
import Graft.Toml.Table
import Graft.Toml.Value
import Graft.Xml.Char
import Graft.Xml.Fault
import Graft.Xml.Node
import Graft.Xml.Reader
import Graft.Xml.Reference
import Graft.Xml.Scope
import Graft.Xml.Token
