import RecordQuery.Main
import RecordQuery.Proofs.Text.Split
import RecordQuery.Proofs.Token.Cursor
import RecordQuery.Proofs.Token.Scan
import RecordQuery.Proofs.Query.Grammar
import RecordQuery.Proofs.Selection.Phase
import RecordQuery.Proofs.Selection.Pieces
import RecordQuery.Proofs.Query.Acceptance
import RecordQuery.Proofs.Query.Derivation
import RecordQuery.Proofs.Keyed
import RecordQuery.Proofs.Query.Image
import RecordQuery.Proofs.Query.Extension
import RecordQuery.Proofs.Registry.Source
import RecordQuery.Proofs.Text.Bytes
import RecordQuery.Proofs.Token.Coverage
import RecordQuery.Proofs.Token.Layout
import RecordQuery.Proofs.Query.Layout
import RecordQuery.Proofs.Query.Nesting
import RecordQuery.Proofs.Registry.Answer
import RecordQuery.Proofs.Query.Ending
import RecordQuery.Proofs.Query.Errors
import RecordQuery.Proofs.Query.Reuse
import RecordQuery.Proofs.Json.Ordered
import RecordQuery.Proofs.Registry.History
import RecordQuery.Proofs.Store.Records
import RecordQuery.Proofs.Registry.Data
import RecordQuery.Selection.Descent
import RecordQuery.Proofs.Query.Descent
import RecordQuery.Proofs.Token.Termination
import RecordQuery.Proofs.Selection.Outline
import RecordQuery.Proofs.Command.Check
import RecordQuery.Proofs.Record.RoundTrip
import RecordQuery.Proofs.Token.Ending
import RecordQuery.Proofs.Query.Groups
import RecordQuery.Proofs.Query.Accessors
import RecordQuery.Proofs.Query.Rearrangement
import RecordQuery.Proofs.Number.Denotation
import RecordQuery.Proofs.Query.Argument
import RecordQuery.Proofs.Store.Document
import RecordQuery.Proofs.Registry.Keys
import RecordQuery.Proofs.Command.Listing
import RecordQuery.Proofs.Token.Sequence
import RecordQuery.Proofs.Store.RoundTrip
import RecordQuery.Token.Offsets
import RecordQuery.Proofs.Token.Offsets
import RecordQuery.Proofs.Token.Invariant
