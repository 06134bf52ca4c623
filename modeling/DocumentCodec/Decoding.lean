import DocumentCodec.Decoding.Container
/-!
# Decoding records

Ties the readers of bodies into one, level by level, as `Encoding` does for the writers: a reader
with room hands the bodies inside a container to the reader with one level less, and a reader
without refuses every container.  The recursion is on `room` alone, so it ends on every input,
whatever cycles its pointers make.
-/

namespace DocumentCodec

namespace Decoding

/-- Reads a value under a tag, given the reader for one level deeper, or the reason why there is
none. -/
def readBodyWith (context : Context) (input : List UInt8) (inner : Except CodecError BodyReader) :
    BodyReader := fun tag =>
  let deeper (read : BodyReader → Decoder Value) : Decoder Value :=
    match inner with
    | .error e => throw (.codec e)
    | .ok inner => read inner
  match tag with
  | .embedded => deeper fun inner => readEmbedded context input inner
  | .embeddedList => deeper fun inner => return .embeddedList (← readItems input inner)
  | .embeddedSet => deeper fun inner => return .embeddedSet (← readItems input inner)
  | .embeddedMap => deeper fun inner => return .embeddedMap (← readMap input inner)
  | _ => readScalar context input tag

/-- Reads a value under a tag, with `room` levels left for containers. -/
def readBody (context : Context) (input : List UInt8) : (room : Nat) → BodyReader
  | 0 => readBodyWith context input (.error context.tooDeep)
  | room + 1 => readBodyWith context input (.ok (readBody context input room))

end Decoding

namespace Record

/-- Reads the record at the cursor into the target, with a budget of its own.  With a projection
only the fields in it are bound. -/
def decodeFrom (context : Context) (input : List UInt8) (projection : Option (List String)) :
    Binder Unit := do
  Cursor.resetBudget
  Decoding.readRecord context input
    (Decoding.readBody context input context.options.maxDepth) projection

/-- Reads the record at the beginning of `input` into `target`. -/
def decode (context : Context) (input : List UInt8) (projection : Option (List String))
    (target : Record) : EStateM.Result Failure Binding Unit :=
  decodeFrom context input projection ⟨Cursor.start, target⟩

end Record
end DocumentCodec
