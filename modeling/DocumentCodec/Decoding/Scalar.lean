import DocumentCodec.Context
import DocumentCodec.Cursor
/-!
# Reading bodies without bodies inside

How a value that holds no further bodies is read under a tag.  Each tag gives its own kind of
value; the two tags under which nothing is stored give null and read nothing.
-/

namespace DocumentCodec.Decoding

/-- Reads as many things as `count` says, in order. -/
def times {α : Type} (read : Decoder α) : (count : Nat) → Decoder (List α)
  | 0 => return []
  | count + 1 => do
    let first ← read
    let rest ← times read count
    return first :: rest

/-- Passes on what a collaborator refused. -/
def orThrow {α : Type} : Except Failure α → Decoder α
  | .ok a => return a
  | .error e => throw e

variable (context : Context) (input : List UInt8)

/-- Reads a day and gives the instant at which it begins. -/
def readDate : Decoder Value := do
  let start ← Cursor.offset
  let day ← Cursor.signedVarint input
  match context.options.zone.startOfDay? day with
  | some millis => return .date millis
  | none => Decoder.malformed start (.dayOutOfRange day)

/-- Reads a decimal: its scale, the length of its unscaled part, and that part. -/
def readDecimal : Decoder Decimal := do
  let scale := (← Cursor.word32 input).toInt32
  let start ← Cursor.offset
  let count := (← Cursor.word32 input).toInt32
  if count.toInt < 0 then Decoder.malformed start (.negativeDecimalLength count)
  else
    let unscaled ← Cursor.take input count.toInt.toNat
    return ⟨BigEndian.decodeSigned unscaled, scale.toInt64⟩

/-! ## Links -/

/-- Reads an identity. -/
def readId : Decoder RecordId := do
  let cluster ← Cursor.varint32 input
  let position ← Cursor.signedVarint input
  return ⟨cluster, position⟩

/-- Reads an element of a collection of links; the identity set aside for it is an absent one. -/
def readLinkElement : Decoder (Option LinkTarget) := do
  let rid ← readId input
  return if rid.isNullLink then none else some (.identity rid)

/-- Reads a list of links behind their number. -/
def readLinks : Decoder (List (Option LinkTarget)) := do
  let count ← Cursor.length input
  times (readLinkElement input) count

/-- Reads a key of a map, which must be a string. -/
def readMapKey : Decoder String := do
  let start ← Cursor.offset
  let tag ← Cursor.tag input
  if tag = .string then Cursor.string input
  else Decoder.malformed start (.mapKeyType tag)

/-- Reads a map of links behind their number. -/
def readLinkMap : Decoder (List (String × Option LinkTarget)) := do
  let count ← Cursor.length input
  let members ← times (do
    let key ← readMapKey input
    let link ← readLinkElement input
    return (key, link)) count
  return OrderedMap.ofList members

/-! ## Opaque objects -/

/-- Reads the type name and the stream of an opaque object and makes the object. -/
def readCustom : Decoder Value := do
  let typeName ← Cursor.string input
  let stream ← Cursor.binary input
  match context.registry with
  | none => throw (.codec (.unregisteredType typeName))
  | some registry =>
    let object ← orThrow (registry.makeCustom typeName stream)
    return .custom object.typeName object.stream

/-- Reads a value under a tag whose bodies hold no further bodies. -/
def readScalar (tag : TypeTag) : Decoder Value := do
  match tag with
  | .integer => return .integer (← Cursor.varint32 input)
  | .long => return .long (← Cursor.signedVarint input)
  | .short => return .short (← Cursor.varint16 input)
  | .string => return .string (← Cursor.string input)
  | .double => return .double (← Cursor.word64 input)
  | .float => return .float (← Cursor.word32 input)
  | .byte => return .byte (← Cursor.byte input).toInt8
  | .boolean => return .boolean ((← Cursor.byte input) == 1)
  | .dateTime => return .dateTime (← Cursor.signedVarint input)
  | .date => readDate context input
  | .decimal => return .decimal (← readDecimal input)
  | .binary => return .binary (← Cursor.binary input)
  | .linkBag => return .linkBag (← Cursor.binary input)
  | .link => return .link (.identity (← readId input))
  | .linkList => return .linkList (← readLinks input)
  | .linkSet => return .linkSet (← readLinks input)
  | .linkMap => return .linkMap (← readLinkMap input)
  | .custom => readCustom context input
  | .transient | .any | .embedded | .embeddedList | .embeddedSet | .embeddedMap => return .null

end DocumentCodec.Decoding
