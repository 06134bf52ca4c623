/-!
# Type tags

The closed set of kinds under which a body can be stored.  A tag stands as one byte in a slot,
before a list element and in a map entry; `any` is no kind of its own: it leaves the choice open
and, before a list element, says that the element is absent.
-/

namespace DocumentCodec

/-- The kinds under which a body can be stored, in the order of their ids. -/
inductive TypeTag where
  | boolean | integer | short | long | float | double | dateTime | string
  | binary | embedded | embeddedList | embeddedSet | embeddedMap
  | link | linkList | linkSet | linkMap | byte | transient | date
  | custom | decimal | linkBag | any
deriving DecidableEq, Repr

namespace TypeTag

/-- All tags; the place of a tag in this list is its id. -/
def all : List TypeTag :=
  [.boolean, .integer, .short, .long, .float, .double, .dateTime, .string,
   .binary, .embedded, .embeddedList, .embeddedSet, .embeddedMap,
   .link, .linkList, .linkSet, .linkMap, .byte, .transient, .date,
   .custom, .decimal, .linkBag, .any]

/-- The byte that stands for a tag. -/
def id : TypeTag → UInt8
  | .boolean => 0 | .integer => 1 | .short => 2 | .long => 3
  | .float => 4 | .double => 5 | .dateTime => 6 | .string => 7
  | .binary => 8 | .embedded => 9 | .embeddedList => 10 | .embeddedSet => 11
  | .embeddedMap => 12 | .link => 13 | .linkList => 14 | .linkSet => 15
  | .linkMap => 16 | .byte => 17 | .transient => 18 | .date => 19
  | .custom => 20 | .decimal => 21 | .linkBag => 22 | .any => 23

/-- The tag that a byte stands for; bytes from 24 on stand for none. -/
def ofId? (id : UInt8) : Option TypeTag := all[id.toNat]?

/-- The name of a tag, as schemas and messages write it. -/
def name : TypeTag → String
  | .boolean => "BOOLEAN" | .integer => "INTEGER"
  | .short => "SHORT" | .long => "LONG"
  | .float => "FLOAT" | .double => "DOUBLE"
  | .dateTime => "DATETIME" | .string => "STRING"
  | .binary => "BINARY" | .embedded => "EMBEDDED"
  | .embeddedList => "EMBEDDEDLIST" | .embeddedSet => "EMBEDDEDSET"
  | .embeddedMap => "EMBEDDEDMAP" | .link => "LINK"
  | .linkList => "LINKLIST" | .linkSet => "LINKSET"
  | .linkMap => "LINKMAP" | .byte => "BYTE"
  | .transient => "TRANSIENT" | .date => "DATE"
  | .custom => "CUSTOM" | .decimal => "DECIMAL"
  | .linkBag => "LINKBAG" | .any => "ANY"

/-- The name of a tag inside a printed value. -/
def label : TypeTag → String
  | .boolean => "Boolean" | .integer => "Integer"
  | .short => "Short" | .long => "Long"
  | .float => "Float" | .double => "Double"
  | .dateTime => "DateTime" | .string => "String"
  | .binary => "Binary" | .embedded => "Embedded"
  | .embeddedList => "EmbeddedList" | .embeddedSet => "EmbeddedSet"
  | .embeddedMap => "EmbeddedMap" | .link => "Link"
  | .linkList => "LinkList" | .linkSet => "LinkSet"
  | .linkMap => "LinkMap" | .byte => "Byte"
  | .transient => "Transient" | .date => "Date"
  | .custom => "Custom" | .decimal => "Decimal"
  | .linkBag => "LinkBag" | .any => "Any"

/-- The tag with a given name. -/
def ofName? (name : String) : Option TypeTag := all.find? (·.name = name)

/-- A concrete tag pins a type; only `any` leaves it open. -/
def isConcrete (tag : TypeTag) : Bool := tag != .any

/-- Whether bodies of this kind hold values one level deeper. -/
def isContainer : TypeTag → Bool
  | .embedded | .embeddedList | .embeddedSet | .embeddedMap => true
  | _ => false

/-! ## Ids and tags -/

@[simp] theorem ofId?_id (tag : TypeTag) : ofId? tag.id = some tag := by
  cases tag <;> rfl

theorem id_injective {a b : TypeTag} (h : a.id = b.id) : a = b := by
  have key : some a = some b := by rw [← ofId?_id a, ← ofId?_id b, h]
  exact Option.some.inj key

end TypeTag
end DocumentCodec
