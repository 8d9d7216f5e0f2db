import Parcel.Boundary
import Parcel.Bytes
import Parcel.Double.Decimal
import Parcel.Cbor.Reader
import Parcel.Cbor.Writer
import Parcel.Json.Canonical
import Parcel.Json.Depth
import Parcel.Json.Equality
import Parcel.Json.Parser
import Parcel.Json.Printer
import Parcel.Json.Rounds
import Parcel.Identifier
import Parcel.Metadata.Datum
import Parcel.Metadata.Encoding
import Parcel.Object
import Parcel.Payload.InPlace
import Parcel.Exchange.Rationed
import Parcel.Exchange.Recording
import Parcel.Exchange.Scripted
import Parcel.Exchange.Transfer
import Parcel.Samples
import Parcel.Store
import Parcel.Text.Quoted
import Parcel.Text.Utf8
import Parcel.Proofs.Table.Lookup
import Parcel.Proofs.Table.History
import Parcel.Proofs.Table.FiniteMap
import Parcel.Proofs.Json.Parts
import Parcel.Proofs.Json.Depth
import Parcel.Proofs.Json.Rounds
import Parcel.Proofs.Json.Arrangement
import Parcel.Proofs.Text.ByteOrder
import Parcel.Proofs.Json.Canonical
import Parcel.Proofs.Json.Equality
import Parcel.Proofs.Json.Parser
import Parcel.Proofs.Double.Finite
import Parcel.Proofs.Cbor.Header
import Parcel.Proofs.Cbor.Stable
import Parcel.Proofs.Metadata.Written
import Parcel.Proofs.Metadata.Conversion
import Parcel.Proofs.Metadata.RoundTrip
import Parcel.Proofs.Metadata.Canonical
import Parcel.Proofs.Metadata.Equality
import Parcel.Proofs.Metadata.PrefixFree
import Parcel.Proofs.Payload.Construction
import Parcel.Proofs.Store.History
import Parcel.Proofs.Store.Capacity
import Parcel.Proofs.Store.Dead
import Parcel.Proofs.Exchange.Session
import Parcel.Proofs.Exchange.Growable
import Parcel.Proofs.Exchange.Fetch
import Parcel.Proofs.Exchange.Live
import Parcel.Proofs.Exchange.Recorded
import Parcel.Proofs.Exchange.Put
import Parcel.Proofs.Exchange.RoundTrip
import Parcel.Proofs.Exchange.Refusal
import Parcel.Proofs.Payload.Insertion
import Parcel.Proofs.Payload.Transport
import Parcel.Proofs.Text.Utf8
import Parcel.Proofs.Text.Lossy
import Parcel.Proofs.Boundary.Calls
import Parcel.Proofs.Boundary.Isolation
import Parcel.Proofs.Boundary.History
import Parcel.Proofs.Boundary.Interchange
import Parcel.Proofs.Boundary.Names
import Parcel.Proofs.Boundary.BrokenText
import Parcel.Proofs.Store.Failure
import Parcel.Proofs.Boundary.Failure
import Parcel.Proofs.Boundary.Getters
import Parcel.Proofs.Exchange.Requests
import Parcel.Proofs.Store.Limit
import Parcel.Proofs.Cbor.Extent
import Parcel.Proofs.Metadata.Addressable
import Parcel.Proofs.Metadata.MapOrder
import Parcel.Proofs.Exchange.Normal
import Parcel.Proofs.Exchange.Rationed
import Parcel.Proofs.Exchange.Overwrite
import Parcel.Proofs.Exchange.FirstFailure
import Parcel.Proofs.Exchange.Release
import Parcel.Proofs.Metadata.Acceptance
import Parcel.Proofs.Metadata.FirstOffence
import Parcel.Proofs.Json.Quoted
import Parcel.Proofs.Json.Digits
import Parcel.Proofs.Json.Reread
import Parcel.Proofs.Metadata.TextRoundTrip
import Parcel.Proofs.Double.Rounding
import Parcel.Proofs.Double.Error
import Parcel.Proofs.Double.Arithmetic
import Parcel.Proofs.Double.Shortest
import Parcel.Proofs.Json.Scaling
import Parcel.Proofs.Json.Decimal
import Parcel.Proofs.Json.Doubles
import Parcel.Proofs.Metadata.DoublesInText
import Parcel.Proofs.Exchange.Probing
import Parcel.Proofs.Cbor.Encoding
import Parcel.Proofs.Cbor.Decoding
import Parcel.Proofs.Cbor.Nesting
import Parcel.Proofs.Metadata.Levels
import Parcel.Proofs.Metadata.Faults
import Parcel.Proofs.Json.Spelling
import Parcel.Proofs.Json.Spelled
import Parcel.Proofs.Json.Recognised
import Parcel.Proofs.Json.Range
import Parcel.Proofs.Json.Meaning
import Parcel.Proofs.Json.Plain
import Parcel.Proofs.Metadata.TextFaults
import Parcel.Proofs.Payload.InPlace
import Parcel.Proofs.Payload.KeyOrder
import Parcel.Proofs.Json.Matched
import Parcel.Proofs.Payload.Equality
import Parcel.Proofs.Boundary.TextOutput
import Parcel.Proofs.Payload.StepByStep
import Parcel.Proofs.Json.SameText
import Parcel.Proofs.Payload.SameText
import Parcel.Proofs.Metadata.Typed
import Parcel.Proofs.Exchange.Typed
