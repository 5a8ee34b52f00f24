import CliSignature.Arena
import CliSignature.Assembly.Identity
import CliSignature.Assembly.Version
import CliSignature.Blob.Compressed
import CliSignature.Blob.Cursor
import CliSignature.Blob.Error
import CliSignature.Blob.Reader
import CliSignature.Blob.Writer
import CliSignature.CallingConvention
import CliSignature.CoreTypes
import CliSignature.Digest
import CliSignature.Handle
import CliSignature.Limits
import CliSignature.Name.Formatter
import CliSignature.Name.Rendering
import CliSignature.Node
import CliSignature.Owner
import CliSignature.Path
import CliSignature.Primitive
import CliSignature.Proofs.Acyclicity
import CliSignature.Proofs.Assembly.ComponentOrder
import CliSignature.Proofs.Assembly.DisplayForm
import CliSignature.Proofs.Bisimilarity
import CliSignature.Proofs.Blob.Acceptance
import CliSignature.Proofs.Blob.Alignment
import CliSignature.Proofs.Blob.BottomUp
import CliSignature.Proofs.Blob.Codable
import CliSignature.Proofs.Blob.CompressedItems
import CliSignature.Proofs.Blob.Compression
import CliSignature.Proofs.Blob.Congruence
import CliSignature.Proofs.Blob.Emission
import CliSignature.Proofs.Blob.Grammar
import CliSignature.Proofs.Blob.Lexeme
import CliSignature.Proofs.Blob.ListReading
import CliSignature.Proofs.Blob.Locality
import CliSignature.Proofs.Blob.Nesting
import CliSignature.Proofs.Blob.Readable
import CliSignature.Proofs.Blob.ReaderDepth
import CliSignature.Proofs.Blob.Recognition
import CliSignature.Proofs.Blob.Redecoding
import CliSignature.Proofs.Blob.RoundTrip
import CliSignature.Proofs.Blob.SignatureReading
import CliSignature.Proofs.Blob.SignatureWriting
import CliSignature.Proofs.Blob.TypeReading
import CliSignature.Proofs.Blob.TypeWriting
import CliSignature.Proofs.Blob.Varargs
import CliSignature.Proofs.Blob.WriteSteps
import CliSignature.Proofs.Blob.WiderLimits
import CliSignature.Proofs.Blob.WriterDepth
import CliSignature.Proofs.ChildPath
import CliSignature.Proofs.Counterparts.Basic
import CliSignature.Proofs.Counterparts.Dangling
import CliSignature.Proofs.Counterparts.Name
import CliSignature.Proofs.Counterparts.Observation
import CliSignature.Proofs.Counterparts.Owner
import CliSignature.Proofs.Counterparts.Written
import CliSignature.Proofs.Erasure.Basic
import CliSignature.Proofs.Erasure.Name
import CliSignature.Proofs.Erasure.Owner
import CliSignature.Proofs.Erasure.Trees
import CliSignature.Proofs.Name.Journal
import CliSignature.Proofs.Name.Parts
import CliSignature.Proofs.Name.Qualification
import CliSignature.Proofs.Name.VisitBudget
import CliSignature.Proofs.Outline
import CliSignature.Proofs.Owner.ErrorCauses
import CliSignature.Proofs.Owner.Queries
import CliSignature.Proofs.Owner.UnboundedWalk
import CliSignature.Proofs.Permanence
import CliSignature.Proofs.Registry.Filing
import CliSignature.Proofs.Registry.FreshRows
import CliSignature.Proofs.Registry.Operations
import CliSignature.Proofs.RelatedLists
import CliSignature.Proofs.Structural.Bookkeeping
import CliSignature.Proofs.Structural.ComparisonLaws
import CliSignature.Proofs.Structural.Consistency
import CliSignature.Proofs.Structural.Coverage
import CliSignature.Proofs.Structural.Decision
import CliSignature.Proofs.Structural.FieldOrder
import CliSignature.Proofs.Structural.Ledger
import CliSignature.Proofs.Structural.Lockstep
import CliSignature.Proofs.Structural.Mixing
import CliSignature.Proofs.Structural.PlainHash
import CliSignature.Proofs.Structural.Renaming
import CliSignature.Proofs.Structural.SingleDifference
import CliSignature.Proofs.Structural.Steps
import CliSignature.Proofs.Structural.TreeHash
import CliSignature.Proofs.Structural.Truncation
import CliSignature.Proofs.Structural.Walks
import CliSignature.Proofs.Text.Cutting
import CliSignature.Proofs.Text.Numerals
import CliSignature.Proofs.Traversal.Chain
import CliSignature.Proofs.Traversal.Stripping
import CliSignature.Proofs.Unfolding
import CliSignature.Registry
import CliSignature.Signature
import CliSignature.Structural.Book
import CliSignature.Structural.Equality
import CliSignature.Structural.Hash
import CliSignature.Text.Blank
import CliSignature.Text.Digits
import CliSignature.Text.Pieces
import CliSignature.Token
