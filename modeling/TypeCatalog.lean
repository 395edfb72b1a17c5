import TypeCatalog.Assoc
import TypeCatalog.Binary64
import TypeCatalog.Binary64.Decimal
import TypeCatalog.Catalog
import TypeCatalog.CollectedKind
import TypeCatalog.CommandLine.Arguments
import TypeCatalog.CommandLine.Command
import TypeCatalog.CommandLine.Listing
import TypeCatalog.CommandLine.Run
import TypeCatalog.Descriptor
import TypeCatalog.Descriptor.Decode
import TypeCatalog.Descriptor.Encode
import TypeCatalog.Descriptor.Fault
import TypeCatalog.Descriptor.Kind
import TypeCatalog.Descriptor.Origin
import TypeCatalog.Descriptor.Text
import TypeCatalog.Document
import TypeCatalog.ExtractError
import TypeCatalog.ExtractOption
import TypeCatalog.Extraction
import TypeCatalog.FileTree
import TypeCatalog.Glob
import TypeCatalog.Glob.Search
import TypeCatalog.Json
import TypeCatalog.Json.Cursor
import TypeCatalog.Json.Numeral
import TypeCatalog.Json.Pointer
import TypeCatalog.Json.Printer
import TypeCatalog.Json.Reader
import TypeCatalog.Json.StringLiteral
import TypeCatalog.Main
import TypeCatalog.Pipeline
import TypeCatalog.Proofs.Alongside
import TypeCatalog.Proofs.Arms
import TypeCatalog.Proofs.Assembly
import TypeCatalog.Proofs.Bindings
import TypeCatalog.Proofs.Build
import TypeCatalog.Proofs.BuiltShapes
import TypeCatalog.Proofs.Catalog
import TypeCatalog.Proofs.Claimant
import TypeCatalog.Proofs.Claims
import TypeCatalog.Proofs.Collect
import TypeCatalog.Proofs.Combining
import TypeCatalog.Proofs.Components
import TypeCatalog.Proofs.Copies
import TypeCatalog.Proofs.Decoding
import TypeCatalog.Proofs.Definitions
import TypeCatalog.Proofs.Depth
import TypeCatalog.Proofs.Discipline
import TypeCatalog.Proofs.Discovery
import TypeCatalog.Proofs.Documents
import TypeCatalog.Proofs.Elementwise
import TypeCatalog.Proofs.Failure
import TypeCatalog.Proofs.Fits
import TypeCatalog.Proofs.Forms
import TypeCatalog.Proofs.Growth
import TypeCatalog.Proofs.Lockstep
import TypeCatalog.Proofs.Meaning
import TypeCatalog.Proofs.MemberOrder
import TypeCatalog.Proofs.Members
import TypeCatalog.Proofs.Merging
import TypeCatalog.Proofs.Moments
import TypeCatalog.Proofs.Nesting
import TypeCatalog.Proofs.Numbering
import TypeCatalog.Proofs.Occurrence
import TypeCatalog.Proofs.Operations
import TypeCatalog.Proofs.OrderlyMoments
import TypeCatalog.Proofs.Parameters
import TypeCatalog.Proofs.Passes
import TypeCatalog.Proofs.Persistence
import TypeCatalog.Proofs.Pointers
import TypeCatalog.Proofs.Positions
import TypeCatalog.Proofs.Precedence
import TypeCatalog.Proofs.Readers
import TypeCatalog.Proofs.Reading
import TypeCatalog.Proofs.RefFree
import TypeCatalog.Proofs.References
import TypeCatalog.Proofs.Rejections
import TypeCatalog.Proofs.Required
import TypeCatalog.Proofs.Respelling
import TypeCatalog.Proofs.Rollback
import TypeCatalog.Proofs.RoundTrip
import TypeCatalog.Proofs.Run
import TypeCatalog.Proofs.SameAssembly
import TypeCatalog.Proofs.Sameness
import TypeCatalog.Proofs.Scripts
import TypeCatalog.Proofs.SeveralInputs
import TypeCatalog.Proofs.ShapeJson
import TypeCatalog.Proofs.ShapeSameness
import TypeCatalog.Proofs.Skipping
import TypeCatalog.Proofs.Sources
import TypeCatalog.Proofs.Spelling
import TypeCatalog.Proofs.Tables
import TypeCatalog.Proofs.TextAndValue
import TypeCatalog.Proofs.Tokens
import TypeCatalog.Proofs.Union
import TypeCatalog.Proofs.UnionSets
import TypeCatalog.Proofs.Validity
import TypeCatalog.Proofs.Walk
import TypeCatalog.Proofs.WellMade
import TypeCatalog.Recognizer
import TypeCatalog.Recognizer.Container
import TypeCatalog.Recognizer.Extra
import TypeCatalog.Recognizer.Leaf
import TypeCatalog.Recognizer.Named
import TypeCatalog.Recognizer.Stock
import TypeCatalog.Recognizer.Union
import TypeCatalog.Registry
import TypeCatalog.Scalar
import TypeCatalog.Schema
import TypeCatalog.Schema.OfShape
import TypeCatalog.Session
import TypeCatalog.Shape
import TypeCatalog.Shape.Encode
import TypeCatalog.Text.Glyphless
import TypeCatalog.Text.Quoted
import TypeCatalog.Text.Split
