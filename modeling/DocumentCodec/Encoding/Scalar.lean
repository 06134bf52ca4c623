import DocumentCodec.Link
import DocumentCodec.Number.FloatWord
import DocumentCodec.Number.Signed
/-!
# Bodies without bodies inside

How a value that holds no further bodies is written under a tag.  Integers of every width go under
every integer tag whose range they fit; a single widens to a double; the three kinds that count
milliseconds go under both tags for instants; every other tag takes its own kind only.

What a field's value is refused for is reported with the field's name and the value's kind.
-/

namespace DocumentCodec.Encoding

/-- Refuses the value of a field. -/
def refuse {α : Type} (field : String) (value : Value) (reason : Unsupported) : Encoder α :=
  Encoder.fail (.unsupportedValue field value.kind reason)

/-- The numbers that an integer tag has room for. -/
def inRange (tag : TypeTag) (v : Int64) : Bool :=
  match tag with
  | .short => Signed.Fits16 v.toInt
  | .integer => Signed.Fits32 v.toInt
  | _ => true

/-- Writes an integer of any width under one of the three integer tags. -/
def writeInteger (field : String) (tag : TypeTag) (value : Value) : Encoder Unit :=
  match value.int64? with
  | none => refuse field value (.wrongKind tag)
  | some v =>
    if inRange tag v then Encoder.signedVarint v else refuse field value (.outOfRange v tag)

/-- Writes a decimal: its scale, the length of its unscaled part, and that part in the fewest
bytes. -/
def writeDecimal (field : String) (number : Decimal) : Encoder Unit :=
  let unscaled := BigEndian.encodeSigned number.unscaled
  if ¬Signed.Fits32 number.scale.toInt then
    Encoder.fail (.unsupportedValue field "decimal" (.scaleTooWide number.scale))
  else if ¬Signed.Fits32 unscaled.length then
    Encoder.fail (.unsupportedValue field "decimal" .unscaledTooLong)
  else
    Encoder.emit (BigEndian.encode32 number.scale.toInt32.toUInt32
      ++ BigEndian.encode 4 unscaled.length ++ unscaled)

/-- Writes an opaque object: its type name and its stream.  Only a registered type is written,
for no other could be read back. -/
def writeCustom (context : Context) (field typeName : String) (stream : List UInt8) :
    Encoder Unit := do
  if context.registry.any (·.hasCustom typeName) then
    Encoder.string typeName
    Encoder.binary stream
  else refuse field (.custom typeName stream) (.unregisteredCustom typeName)

/-- Writes a list of links behind their number. -/
def writeLinks (context : Context) (items : List (Option LinkTarget)) : Encoder Unit := do
  Encoder.varint items.length
  items.forM (Link.writeElement context)

/-- Writes a key of a map behind the tag of strings. -/
def keyBytes (key : String) : List UInt8 :=
  TypeTag.string.id :: Varint.encode (UInt64.ofNat (Utf8.encode key).length) ++ Utf8.encode key

/-- Writes a map of links behind their number: each key, then its link. -/
def writeLinkMap (context : Context) (entries : List (String × Option LinkTarget)) :
    Encoder Unit := do
  Encoder.varint entries.length
  entries.forM fun entry => do
    Encoder.emit (keyBytes entry.1)
    Link.writeElement context entry.2

/-- Writes a value under a tag whose bodies hold no further bodies. -/
def writeScalar (context : Context) (field : String) (tag : TypeTag) (value : Value) :
    Encoder Unit :=
  let wrongKind := refuse field value (.wrongKind tag)
  match tag with
  | .integer | .long | .short => writeInteger field tag value
  | .string =>
    match value with
    | .string text => Encoder.string text
    | _ => wrongKind
  | .double =>
    match value with
    | .double word => Encoder.emit (BigEndian.encode64 word)
    | .float word => Encoder.emit (BigEndian.encode64 (FloatWord.widen word))
    | _ => wrongKind
  | .float =>
    match value with
    | .float word => Encoder.emit (BigEndian.encode32 word)
    | _ => wrongKind
  | .byte =>
    match value with
    | .byte v => Encoder.byte v.toUInt8
    | _ => wrongKind
  | .boolean =>
    match value with
    | .boolean v => Encoder.byte (if v then 1 else 0)
    | _ => wrongKind
  | .dateTime =>
    match value with
    | .dateTime millis | .date millis | .long millis => Encoder.signedVarint millis
    | _ => wrongKind
  | .date =>
    match value with
    | .date millis | .dateTime millis | .long millis =>
      Encoder.signedVarint (context.options.zone.dayNumber millis)
    | _ => wrongKind
  | .decimal =>
    match value with
    | .decimal number => writeDecimal field number
    | _ => wrongKind
  | .binary =>
    match value with
    | .binary bytes => Encoder.binary bytes
    | _ => wrongKind
  | .linkBag =>
    match value with
    | .linkBag bytes => Encoder.binary bytes
    | _ => wrongKind
  | .link =>
    match value with
    | .link target => Link.write context target
    | .embedded record => Link.write context (.record record)
    | _ => wrongKind
  | .linkList | .linkSet =>
    match value with
    | .linkList items | .linkSet items => writeLinks context items
    | _ => wrongKind
  | .linkMap =>
    match value with
    | .linkMap entries => writeLinkMap context entries
    | _ => wrongKind
  | .custom =>
    match value with
    | .custom typeName stream => writeCustom context field typeName stream
    | _ => wrongKind
  | .transient | .any => refuse field value (.noBody tag)
  | .embedded | .embeddedList | .embeddedSet | .embeddedMap => wrongKind

end DocumentCodec.Encoding
