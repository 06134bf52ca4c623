import DocumentCodec.Proofs.Emission
/-!
# What is left of a record when it is stored again

A slot may point at a body of no bytes, under the tag `any` or `transient`, and the field then holds
null and is pinned to that tag.  Such a record is not as tidy as one that an encoder wrote: a field
pinned to `transient` is left out when the record is stored, and a null field is stored without a
tag.  That is all that changes.

`bulk` is how many bytes a value takes when it is stored.  It does not depend on where it stands.
-/

namespace DocumentCodec

/-! ## The measure -/

/-- The bytes of a number of bytes, elements or characters. -/
def countBulk (n : Nat) : Nat := (Varint.encode (UInt64.ofNat n)).length

/-- The bytes of so many bytes behind their number. -/
def stringBulk (n : Nat) : Nat := countBulk n + n

/-- A link element as it is stored where every identity is. -/
def linkBytes : Option LinkTarget → List UInt8
  | none => Link.idBytes .nullLink
  | some target => Link.idBytes target.rid

/-- An entry of a map of links as it is stored where every identity is. -/
def linkEntryBytes (entry : String × Option LinkTarget) : List UInt8 :=
  Encoding.keyBytes entry.1 ++ linkBytes entry.2

mutual

/-- The bytes that a value takes under the tag of its kind. -/
def Value.bulk : Value → Nat
  | .null | .transient => 0
  | .boolean _ | .byte _ => 1
  | .short v => (Varint.encodeSigned v.toInt64).length
  | .integer v => (Varint.encodeSigned v.toInt64).length
  | .long v | .dateTime v => (Varint.encodeSigned v).length
  | .float _ => 4
  | .double _ => 8
  | .string text => stringBulk (Utf8.encode text).length
  | .binary bytes | .linkBag bytes => stringBulk bytes.length
  | .date millis => (Varint.encodeSigned (Zone.utc.dayNumber millis)).length
  | .decimal number => 8 + (BigEndian.encodeSigned number.unscaled).length
  | .embedded record => record.bulk
  | .embeddedList items => countBulk items.length + 1 + bulkOfItems items
  | .embeddedSet items => countBulk items.length + 1 + bulkOfItems items
  | .embeddedMap members => countBulk members.length + bulkOfMembers members
  | .link target => (Link.idBytes target.rid).length
  | .linkList items | .linkSet items => countBulk items.length + (items.flatMap linkBytes).length
  | .linkMap entries => countBulk entries.length + (entries.flatMap linkEntryBytes).length
  | .custom typeName stream => stringBulk (Utf8.encode typeName).length + stringBulk stream.length
  | .serializable _ record => record.bulk
termination_by structural x => x

/-- The bytes of a record: its class name, its fields, and the end of its header. -/
def Record.bulk : Record → Nat
  | ⟨className, _, fields, _⟩ =>
    stringBulk (Utf8.encode (className.getD "")).length + bulkOfFields fields + 1
termination_by structural x => x

/-- The bytes of fields, each with its name and its slot. -/
def bulkOfFields : List Field → Nat
  | [] => 0
  | ⟨name, value, _⟩ :: rest =>
    stringBulk (Utf8.encode name).length + Slot.openSize + value.bulk + bulkOfFields rest
termination_by structural x => x

/-- The bytes of elements, each with its tag. -/
def bulkOfItems : List Value → Nat
  | [] => 0
  | item :: rest => 1 + item.bulk + bulkOfItems rest
termination_by structural x => x

/-- The bytes of the members of a map, each with its key and its slot. -/
def bulkOfMembers : List (String × Value) → Nat
  | [] => 0
  | (key, value) :: rest =>
    (Encoding.keyBytes key).length + Slot.openSize + value.bulk + bulkOfMembers rest
termination_by structural x => x

end

/-! ## The tidied record -/

mutual

/-- The value without what is not stored. -/
def Value.tidied : Value → Value
  | .embedded record => .embedded record.tidied
  | .embeddedList items => .embeddedList (tidiedItems items)
  | .embeddedSet items => .embeddedSet (tidiedItems items)
  | .embeddedMap members => .embeddedMap (tidiedMembers members)
  | .serializable className record => .serializable className record.tidied
  | value => value
termination_by structural x => x

/-- The record without the null fields that are pinned to `transient`, and with the other null
fields pinned to nothing. -/
def Record.tidied : Record → Record
  | ⟨className, identity, fields, isEmbedded⟩ =>
    ⟨className, identity, tidiedFields fields, isEmbedded⟩
termination_by structural x => x

/-- The fields that are stored. -/
def tidiedFields : List Field → List Field
  | [] => []
  | ⟨name, value, pinned⟩ :: rest =>
    if value.isNull && pinned == some .transient then tidiedFields rest
    else ⟨name, value.tidied, if value.isNull then none else pinned⟩ :: tidiedFields rest
termination_by structural x => x

/-- Each value of a list without what is not stored. -/
def tidiedItems : List Value → List Value
  | [] => []
  | item :: rest => item.tidied :: tidiedItems rest
termination_by structural x => x

/-- Each value of a map without what is not stored. -/
def tidiedMembers : List (String × Value) → List (String × Value)
  | [] => []
  | (key, value) :: rest => (key, value.tidied) :: tidiedMembers rest
termination_by structural x => x

end

/-- The field of a record that is stored. -/
def Field.tidied (field : Field) : Field :=
  ⟨field.name, field.value.tidied, if field.value.isNull then none else field.pinned⟩

/-- The field leaves no trace when the record is stored: it is null, and pinned to have no body. -/
def Field.isDropped (field : Field) : Bool := field.value.isNull && field.pinned == some .transient

/-- Tidying leaves out the fields that are dropped and tidies each of the others. -/
theorem tidiedFields_eq (fields : List Field) :
    tidiedFields fields = (fields.filter (!·.isDropped)).map Field.tidied := by
  induction fields with
  | nil => rfl
  | cons field rest ih =>
    obtain ⟨name, value, pinned⟩ := field
    rw [tidiedFields, ih, List.filter_cons, Field.isDropped]
    cases value.isNull && pinned == some .transient <;> rfl

theorem tidiedItems_eq (items : List Value) : tidiedItems items = items.map Value.tidied := by
  induction items with
  | nil => rfl
  | cons item rest ih => rw [tidiedItems, ih, List.map_cons]

/-- No member of a map is left out by tidying. -/
theorem tidiedMembers_eq (members : List (String × Value)) :
    tidiedMembers members = members.map fun member => (member.1, member.2.tidied) := by
  induction members with
  | nil => rfl
  | cons member rest ih => rw [tidiedMembers, ih, List.map_cons]

/-- The bulk of members is that of their keys, slots and values added up. -/
theorem bulkOfMembers_eq (members : List (String × Value)) : bulkOfMembers members
    = (members.map fun member =>
        (Encoding.keyBytes member.1).length + Slot.openSize + member.2.bulk).sum := by
  induction members with
  | nil => rfl
  | cons member rest ih => rw [bulkOfMembers, ih, List.map_cons, List.sum_cons]

/-- The bulk of fields is that of their names, slots and values added up. -/
theorem bulkOfFields_eq (fields : List Field) : bulkOfFields fields
    = (fields.map fun field =>
        stringBulk (Utf8.encode field.name).length + Slot.openSize + field.value.bulk).sum := by
  induction fields with
  | nil => rfl
  | cons field rest ih =>
    obtain ⟨name, value, pinned⟩ := field
    rw [bulkOfFields, ih, List.map_cons, List.sum_cons]

theorem Record.bulk_eq (record : Record) : record.bulk
    = stringBulk (Utf8.encode (record.className.getD "")).length + bulkOfFields record.fields + 1 := by
  cases record
  rfl

theorem Record.tidied_eq (record : Record) :
    record.tidied = { record with fields := tidiedFields record.fields } := by
  cases record
  rfl

theorem Value.text?_tidied (value : Value) : value.tidied.text? = value.text? := by
  cases value <;> rfl

end DocumentCodec
