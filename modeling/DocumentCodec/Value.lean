import DocumentCodec.Number.Decimal
import DocumentCodec.RecordId
import DocumentCodec.TypeTag
/-!
# Values and records

A record is a class name, an identity and an ordered list of named fields; a field holds a value
and may pin the type under which it is stored.  Values, records and link targets are defined
together, because a value can hold a record and a link can point at one in memory.

Two kinds of value are nothing stored: `null` is an absent value that keeps its field, and
`transient` one that is left out together with its field, list element or map entry.

Floating-point values are bit patterns, maps are entries in key order (see `OrderedMap`), and the
two kinds that belong to the application are what it says about itself: an opaque object is its
type name and its byte stream, a serializable object its class name and the record it makes.
-/

namespace DocumentCodec

mutual

/-- A value of a field. -/
inductive Value where
  | null
  | transient
  | boolean (v : Bool)
  | byte (v : Int8)
  | short (v : Int16)
  | integer (v : Int32)
  | long (v : Int64)
  | float (word : UInt32)
  | double (word : UInt64)
  | string (text : String)
  | binary (bytes : List UInt8)
  | date (millis : Int64)
  | dateTime (millis : Int64)
  | decimal (number : Decimal)
  | embedded (record : Record)
  | embeddedList (items : List Value)
  | embeddedSet (items : List Value)
  | embeddedMap (entries : List (String × Value))
  | link (target : LinkTarget)
  | linkList (items : List (Option LinkTarget))
  | linkSet (items : List (Option LinkTarget))
  | linkMap (entries : List (String × Option LinkTarget))
  | linkBag (bytes : List UInt8)
  | custom (typeName : String) (stream : List UInt8)
  | serializable (className : String) (record : Record)

/-- What a link points at: an identity, or a record in memory that may not be stored yet. -/
inductive LinkTarget where
  | identity (rid : RecordId)
  | record (record : Record)

/-- A named value; `pinned` is the type that the field asks to be stored under. -/
structure Field where
  name : String
  value : Value
  pinned : Option TypeTag

/-- A record.  `isEmbedded` says that an enclosing record owns it. -/
structure Record where
  className : Option String
  identity : RecordId
  fields : List Field
  isEmbedded : Bool

end

/-- The identity of a link's target: the one it is, or the one of the record in memory. -/
def LinkTarget.rid : LinkTarget → RecordId
  | .identity rid => rid
  | .record r => r.identity

namespace Value

/-- The value is absent. -/
def isNull : Value → Bool
  | .null => true
  | _ => false

/-- The value is left out wherever it stands. -/
def isTransient : Value → Bool
  | .transient => true
  | _ => false

/-- The name of a value's kind, as messages write it. -/
def kind : Value → String
  | .null => "Null"
  | .transient => "Transient"
  | .boolean _ => "Boolean"
  | .byte _ => "Byte"
  | .short _ => "Short"
  | .integer _ => "Integer"
  | .long _ => "Long"
  | .float _ => "Float"
  | .double _ => "Double"
  | .string _ => "String"
  | .binary _ => "Binary"
  | .date _ => "Date"
  | .dateTime _ => "DateTime"
  | .decimal _ => "Decimal"
  | .embedded _ => "Embedded"
  | .embeddedList _ => "EmbeddedList"
  | .embeddedSet _ => "EmbeddedSet"
  | .embeddedMap _ => "EmbeddedMap"
  | .link _ => "Link"
  | .linkList _ => "LinkList"
  | .linkSet _ => "LinkSet"
  | .linkMap _ => "LinkMap"
  | .linkBag _ => "LinkBag"
  | .custom _ _ => "Custom"
  | .serializable _ _ => "Serializable"

/-- The type under which a value is stored when nothing pins it.  A record is stored as a link
only when it has a persistent identity and no enclosing record owns it. -/
def naturalTag : Value → Option TypeTag
  | .null => none
  | .transient => none
  | .boolean _ => some .boolean
  | .byte _ => some .byte
  | .short _ => some .short
  | .integer _ => some .integer
  | .long _ => some .long
  | .float _ => some .float
  | .double _ => some .double
  | .string _ => some .string
  | .binary _ => some .binary
  | .date _ => some .date
  | .dateTime _ => some .dateTime
  | .decimal _ => some .decimal
  | .embedded record =>
    some (if record.identity.isPersistent && !record.isEmbedded then .link else .embedded)
  | .embeddedList _ => some .embeddedList
  | .embeddedSet _ => some .embeddedSet
  | .embeddedMap _ => some .embeddedMap
  | .link _ => some .link
  | .linkList _ => some .linkList
  | .linkSet _ => some .linkSet
  | .linkMap _ => some .linkMap
  | .linkBag _ => some .linkBag
  | .custom _ _ => some .custom
  | .serializable _ _ => some .embedded

/-- The number that a value of one of the four integer kinds holds. -/
def int64? : Value → Option Int64
  | .byte v => some v.toInt64
  | .short v => some v.toInt64
  | .integer v => some v.toInt64
  | .long v => some v
  | _ => none

/-- The text of a string. -/
def text? : Value → Option String
  | .string text => some text
  | _ => none

/-- The record that a value embeds. -/
def record? : Value → Option Record
  | .embedded record => some record
  | _ => none

/-- Only the two kinds that store nothing have no type of their own. -/
theorem text?_eq_some {value : Value} {text : String} :
    value.text? = some text ↔ value = .string text := by
  cases value <;> simp [text?]

/-- What is embedded is stored as a record, whatever its identity. -/
theorem naturalTag_of_isEmbedded {record : Record} (embedded : record.isEmbedded = true) :
    (Value.embedded record).naturalTag = some .embedded := by
  rw [naturalTag, embedded, Bool.not_true, Bool.and_false]
  rfl

theorem naturalTag_eq_none_iff (v : Value) :
    v.naturalTag = none ↔ v.isNull = true ∨ v.isTransient = true := by
  cases v <;> simp [naturalTag, isNull, isTransient]

end Value
end DocumentCodec
