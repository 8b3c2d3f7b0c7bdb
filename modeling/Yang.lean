import Yang.Codec
import Yang.Registry
import Yang.Schema.Statement
import Yang.Proofs.Narrowing
import Yang.Proofs.Schema.Growth
import Yang.Proofs.Schema.Invariant
import Yang.Proofs.Schema.Forest
import Yang.Proofs.Folding
import Yang.Proofs.Schema.Resolution
import Yang.Proofs.Digits
import Yang.Proofs.Json.Scanning
import Yang.Proofs.Json.ReadBack
import Yang.Proofs.Schema.Modules
import Yang.Proofs.Codec.Conforming
import Yang.Proofs.Codec.Context
import Yang.Proofs.Codec.JsonMembers
import Yang.Proofs.Codec.JsonNames
import Yang.Proofs.Codec.ListKey
import Yang.Proofs.Codec.JsonReading
import Yang.Proofs.Codec.JsonRoundTrip
import Yang.Proofs.Codec.JsonDepth
import Yang.Proofs.Registry.Calls
import Yang.Proofs.Registry.Consistency
import Yang.Proofs.Typing
import Yang.Proofs.Codec.Standing
import Yang.Proofs.Codec.Soundness
import Yang.Proofs.Codec.XmlRoundTrip
import Yang.Proofs.Xml.Text
import Yang.Proofs.Xml.Scanning
import Yang.Proofs.Xml.ReadBack
import Yang.Proofs.Codec.Repeats
import Yang.Proofs.Schema.Augments
import Yang.Proofs.Registry.Anydata
import Yang.Proofs.Instance.Calls
import Yang.Proofs.Instance.Composition
import Yang.Proofs.Instance.Rejection
import Yang.Proofs.Ascending
import Yang.Proofs.Codec.DepthDecoding
import Yang.Proofs.Codec.DepthLimit
import Yang.Proofs.Instance.KeyOrder
import Yang.Proofs.Comparison
import Yang.Proofs.Rereading
import Yang.Proofs.Codec.KeyLeaves
import Yang.Proofs.Codec.Namespaces
import Yang.Proofs.Codec.Wrapper
import Yang.Proofs.FirstMatch
import Yang.Proofs.Codec.Trimming
import Yang.Proofs.Codec.Asides
import Yang.Proofs.DerivationLimit
import Yang.Proofs.Registry.Removal
import Yang.Proofs.Registry.Interchange
import Yang.Proofs.Registry.Newest
import Yang.Proofs.Instance.Appending
import Yang.Proofs.Blank
import Yang.Proofs.Literal.Numeral
import Yang.Proofs.RangeText
import Yang.Proofs.Registry.Listing
import Yang.Proofs.Codec.NamespaceOrder
import Yang.Proofs.Literal.Grammar
import Yang.Proofs.Instance.KeyLimit
import Yang.Proofs.Schema.Placement
import Yang.Proofs.Codec.JsonSiblings
import Yang.Proofs.Literal.Recognition
import Yang.Proofs.ModelId
import Yang.Proofs.Calendar
import Yang.Proofs.Revision
import Yang.Proofs.Registry.Chronology
