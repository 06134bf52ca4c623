import DocumentCodec.Arena
import DocumentCodec.Encoding.Container
/-!
# Encoding records

Ties the writers of bodies into one, level by level.  `room` counts the levels that are left: a
writer with room hands the bodies inside a container to the writer with one level less, and a
writer without refuses every container.  So the recursion is on `room` alone, whatever the values
are, and the level at which a value is refused is always the one past the limit.
-/

namespace DocumentCodec

namespace Encoding

/-- Writes a value under a tag, given the writer for one level deeper, or the reason why there is
none. -/
def writeBodyWith (context : Context) (inner : Except CodecError BodyWriter) : BodyWriter :=
  fun field tag linked value =>
    let deeper (write : BodyWriter → Encoder Unit) : Encoder Unit :=
      match inner with
      | .error e => Encoder.fail e
      | .ok inner => write inner
    match tag, value with
    | .embedded, .embedded record => deeper fun inner => writeRecord context inner record
    | .embedded, .serializable className record =>
      deeper fun inner => writeRecord context inner (markedRecord className record)
    | .embeddedList, .embeddedList items | .embeddedList, .embeddedSet items
    | .embeddedSet, .embeddedList items | .embeddedSet, .embeddedSet items =>
      deeper fun inner => writeItems inner field linked items
    | .embeddedMap, .embeddedMap members => deeper fun inner => writeMap inner field members
    | _, _ => writeScalar context field tag value

/-- Writes a value under a tag, with `room` levels left for containers. -/
def writeBody (context : Context) : (room : Nat) → BodyWriter
  | 0 => writeBodyWith context (.error context.tooDeep)
  | room + 1 => writeBodyWith context (.ok (writeBody context room))

end Encoding

namespace Record

/-- The encoding of a record whose first byte will stand at `start`, when the resolver was asked
for the targets `earlier` before. -/
def emission (context : Context) (record : Record) : Encoder Unit :=
  Encoding.writeRecord context (Encoding.writeBody context context.options.maxDepth) record

/-- The encoding of a record on its own. -/
def encode (context : Context) (record : Record) : Except CodecError (List UInt8) :=
  let emitted := record.emission context 0 []
  emitted.result.map fun _ => emitted.bytes

/-- Appends the encoding of a record to an arena and answers with its offset.  When the record
cannot be encoded, what was emitted stays in the arena.  `earlier` are the targets that the
resolver was asked for before; the calls made now come back. -/
def encodeInto (context : Context) (record : Record) (arena : Arena)
    (earlier : List LinkTarget) : Except CodecError Nat × Arena × List LinkTarget :=
  let emitted := record.emission context arena.size earlier
  (emitted.result.map fun _ => arena.size, (arena.append emitted.bytes).2, emitted.calls)

end Record
end DocumentCodec
