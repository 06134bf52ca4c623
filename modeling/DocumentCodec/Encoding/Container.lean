import DocumentCodec.Encoding.Scalar
import DocumentCodec.Record
import DocumentCodec.Table
/-!
# Bodies with bodies inside

Records, lists, sets and maps, given a writer for the bodies one level deeper.  Lists and sets are
written element by element, each behind its own tag; records and maps are tables of slots.

What is transient is left out; what is null keeps its place, as the tag `any` in a list and as a
zero slot in a table.
-/

namespace DocumentCodec

/-- Writes the value of a field under a tag; `linked` is the type that a schema declares for the
elements of the field's collection. -/
abbrev BodyWriter :=
  (field : String) → (tag : TypeTag) → (linked : Option TypeTag) → (value : Value) → Encoder Unit

namespace Encoding

/-! ## Lists and sets -/

/-- Writes an element behind its tag: the declared one, else the one of its kind. -/
def writeItem (inner : BodyWriter) (field : String) (linked : Option TypeTag) (item : Value) :
    Encoder Unit := do
  if item.isNull then Encoder.byte TypeTag.any.id
  else
    match linked <|> item.naturalTag with
    | none => refuse field item .untypedElement
    | some tag =>
      Encoder.byte tag.id
      inner field tag none item

/-- Writes the elements behind their number and the tag that says each has its own. -/
def writeItems (inner : BodyWriter) (field : String) (linked : Option TypeTag)
    (items : List Value) : Encoder Unit := do
  let kept := items.filter (!·.isTransient)
  Encoder.varint kept.length
  Encoder.byte TypeTag.any.id
  kept.forM (writeItem inner field (linked.filter (·.isConcrete)))

/-! ## Tables -/

/-- Refuses a body that began where no slot can point. -/
def checkPointer (field : String) (value : Value) (start : Nat) : Encoder Unit :=
  if Slot.maxPointer < start then refuse field value .beyondPointers else return ()

/-- Writes the body for a slot and answers with its tag; a null value has none.  The tag is chosen
first, and that the slot can hold the body's offset is looked at last. -/
def writeSlotBody (field : String) (value : Value) (tag : Except Unsupported TypeTag)
    (write : TypeTag → Encoder Unit) : Option (Encoder TypeTag) :=
  if value.isNull then none
  else some do
    let start ← Encoder.position
    match tag with
    | .error reason => refuse field value reason
    | .ok tag =>
      write tag
      checkPointer field value start
      return tag

/-- The entry of a map's member. -/
def mapEntry (inner : BodyWriter) (field : String) (member : String × Value) : Entry where
  label := keyBytes member.1
  pinned := false
  body :=
    writeSlotBody field member.2
      (match member.2.naturalTag with
        | some tag => .ok tag
        | none => .error .untypedMapValue)
      fun tag => inner field tag none member.2

/-- Writes a map: the number of its members, then the table of them. -/
def writeMap (inner : BodyWriter) (field : String) (members : List (String × Value)) :
    Encoder Unit :=
  let kept := members.filter (!·.2.isTransient)
  writeTable (Varint.encode (UInt64.ofNat kept.length)) (kept.map (mapEntry inner field)) []

/-- A field that leaves no trace: its value is transient, or it is pinned to be. -/
def isOmitted (field : Field) : Bool :=
  field.value.isTransient || field.pinned == some .transient

/-- The type that a field is stored under: the one it is pinned to or the schema's, which must
not differ, else the one of its value's kind. -/
def fieldTag (field : Field) (declared : Option TypeTag) : Except Unsupported TypeTag :=
  match field.pinned.filter (·.isConcrete), declared with
  | some pinned, some declared =>
    if pinned = declared then .ok pinned else .error (.typeConflict pinned declared)
  | some pinned, none => .ok pinned
  | none, some declared => .ok declared
  | none, none =>
    match field.value.naturalTag with
    | some tag => .ok tag
    | none => .error .untypedField

/-- The schema's property for a field of a record; a record without a class has none. -/
def property? (context : Context) (className : Option String) (field : String) :
    Option Property :=
  match context.schema, className with
  | some schema, some className => schema.ofField? className field
  | _, _ => none

/-- The entry of a field in a record's header: the negative of its property id less one, or its
name. -/
def fieldEntry (context : Context) (inner : BodyWriter) (className : Option String)
    (field : Field) : Entry :=
  match property? context className field.name with
  | some property =>
    { label := Varint.encodeSigned (Int64.ofInt (-property.id.toInt - 1))
      pinned := property.concreteType?.isSome
      body :=
        writeSlotBody field.name field.value (fieldTag field property.concreteType?) fun tag =>
          inner field.name tag property.linked field.value }
  | none =>
    let name := Utf8.encode field.name
    { label := Varint.encode (UInt64.ofNat name.length) ++ name
      pinned := false
      body :=
        writeSlotBody field.name field.value (fieldTag field none) fun tag =>
          inner field.name tag none field.value }

/-- What ends a header: no length of a name and no property id begins with it. -/
def headerEnd : UInt64 := 0

/-- Writes a record: its class name, then the table of its fields, whose header is ended. -/
def writeRecord (context : Context) (inner : BodyWriter) (record : Record) : Encoder Unit :=
  let className := Utf8.encode (record.className.getD "")
  writeTable (Varint.encode (UInt64.ofNat className.length) ++ className)
    ((record.fields.filter (!isOmitted ·)).map (fieldEntry context inner record.className))
    (Varint.encode headerEnd)

/-- The record that stands for a serializable object: its own, with its class name in a field set
aside for it. -/
def markedRecord (className : String) (record : Record) : Record :=
  record.set Record.serializableClassField (.string className)

end Encoding
end DocumentCodec
