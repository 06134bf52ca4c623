import DocumentCodec.Varint
import DocumentCodec.Number.BigEndian
import DocumentCodec.Number.Decimal
import DocumentCodec.Number.FloatWord
import DocumentCodec.Number.Shortest
import DocumentCodec.Text.Utf8
import DocumentCodec.TypeTag
import DocumentCodec.RecordId
import DocumentCodec.OrderedMap
import DocumentCodec.Value
import DocumentCodec.Record
import DocumentCodec.Equality
import DocumentCodec.Error
import DocumentCodec.Arena
import DocumentCodec.Cursor
import DocumentCodec.Schema
import DocumentCodec.Text.Glyphless
import DocumentCodec.Text.Quoted
import DocumentCodec.Text.Braced
import DocumentCodec.Registry
import DocumentCodec.Zone
import DocumentCodec.Context
import DocumentCodec.Encoder
import DocumentCodec.Link
import DocumentCodec.Table
import DocumentCodec.Number.Signed
import DocumentCodec.Encoding.Scalar
import DocumentCodec.Encoding.Container
import DocumentCodec.Encoding
import DocumentCodec.Slot
import DocumentCodec.Decoding.Scalar
import DocumentCodec.Decoding.Container
import DocumentCodec.Decoding
import DocumentCodec.Text.FloatText
import DocumentCodec.Printed
import DocumentCodec.Dump
import DocumentCodec.Main
import DocumentCodec.WellFormed
import DocumentCodec.Proofs.Numbers
import DocumentCodec.Proofs.Zone
import DocumentCodec.Proofs.Running
import DocumentCodec.Proofs.Budget
import DocumentCodec.Proofs.Content
import DocumentCodec.Proofs.Bounded
import DocumentCodec.Proofs.Projection
import DocumentCodec.Proofs.Emission
import DocumentCodec.Proofs.ReadingBack
import DocumentCodec.Proofs.Normal
import DocumentCodec.Proofs.Emission.Scalar
import DocumentCodec.Proofs.Members
import DocumentCodec.Proofs.Layout
import DocumentCodec.Proofs.Recall
import DocumentCodec.Proofs.RoundTrip.Recalls
import DocumentCodec.Proofs.RoundTrip.Scalar
import DocumentCodec.Proofs.RoundTrip.Container
import DocumentCodec.Proofs.RoundTrip.Record
import DocumentCodec.Proofs.RoundTrip.Object
import DocumentCodec.Proofs.RoundTrip.Lossless
import DocumentCodec.Proofs.RoundTrip
import DocumentCodec.Proofs.BackToBack
import DocumentCodec.Proofs.Writing
import DocumentCodec.Proofs.Reencoding.Scalar
import DocumentCodec.Proofs.Reencoding.Container
import DocumentCodec.Proofs.Reencoding
import DocumentCodec.Proofs.Storing.Tidied
import DocumentCodec.Proofs.Storing.Scalar
import DocumentCodec.Proofs.Storing.Container
import DocumentCodec.Proofs.Storing.Reading
import DocumentCodec.Proofs.Storing
import DocumentCodec.Proofs.Lockstep
import DocumentCodec.Proofs.Truncation
import DocumentCodec.Proofs.SchemaGrowth
import DocumentCodec.Proofs.NestingLimit
import DocumentCodec.Proofs.Unbound
import DocumentCodec.Proofs.NamedEncoding
import DocumentCodec.Proofs.Filling
import DocumentCodec.Proofs.Headings
import DocumentCodec.Proofs.Resolution.Trace
import DocumentCodec.Proofs.Resolution
import DocumentCodec.Proofs.Resolution.Stored
import DocumentCodec.Proofs.Settled.Scalar
import DocumentCodec.Proofs.Settled
import DocumentCodec.Proofs.InPlace
import DocumentCodec.Proofs.Unfinished
import DocumentCodec.Proofs.Appending
import DocumentCodec.Proofs.Refusals
import DocumentCodec.Proofs.Failures.Reading
import DocumentCodec.Proofs.Failures
import DocumentCodec.Proofs.LeftOut.Repeats
import DocumentCodec.Proofs.LeftOut.Walk
import DocumentCodec.Proofs.LeftOut.Table
import DocumentCodec.Proofs.LeftOut
import DocumentCodec.Proofs.Days
import DocumentCodec.Proofs.Unreadable
import DocumentCodec.Proofs.Embedding.Mark
import DocumentCodec.Proofs.Embedding.Container
import DocumentCodec.Proofs.Embedding
import DocumentCodec.Proofs.WithinInput
import DocumentCodec.Proofs.OrderedFields.Indexed
import DocumentCodec.Proofs.OrderedFields.Listed
import DocumentCodec.Proofs.OrderedFields
import DocumentCodec.Proofs.Catalog
import DocumentCodec.Proofs.Inference
import DocumentCodec.Proofs.Decimals
import DocumentCodec.Proofs.Varint
import DocumentCodec.Proofs.Varint.Shortest
import DocumentCodec.Proofs.HandedOut
import DocumentCodec.Proofs.PartialEquivalence
import DocumentCodec.Proofs.Uniform
