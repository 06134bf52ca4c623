import DocumentCodec.Decoding.Scalar
import DocumentCodec.Record
import DocumentCodec.Slot
/-!
# Reading bodies with bodies inside

Records, lists, sets and maps, given a reader for the bodies one level deeper.

A table is walked once, slot by slot, with a jump to each body and back.  The walk keeps the
furthest end of any body, and leaves the cursor there when the table itself ends earlier; so
whoever reads one record behind another goes on after the last body.

A record is read into a target.  Fields that the target has already are stepped over, and so are
those that a projection leaves out; with a projection, the walk stops as soon as it bound as many
fields as were asked for.  What was bound before a failure stays bound.
-/

namespace DocumentCodec

/-- Reads a value under a tag. -/
abbrev BodyReader := (tag : TypeTag) → Decoder Value

/-- The state of reading a record: the cursor and the record that fields are bound to. -/
structure Binding where
  cursor : Cursor
  target : Record

/-- A computation that moves a cursor, binds fields and may fail. -/
abbrev Binder := EStateM Failure Binding

/-- A decoder as a binder that binds nothing. -/
def Binder.lift {α : Type} (read : Decoder α) : Binder α := fun state =>
  match read state.cursor with
  | .ok a cursor => .ok a { state with cursor := cursor }
  | .error e cursor => .error e { state with cursor := cursor }

instance : MonadLift Decoder Binder := ⟨Binder.lift⟩

/-- Binds a field that the target does not have yet. -/
def Binder.bindField (name : String) (value : Value) (pinned : Option TypeTag) : Binder Unit :=
  modify fun state => { state with target := state.target.bind name value pinned }

/-- Gives the target its class name; the empty name stands for none and changes nothing. -/
def Binder.bindClass (className : String) : Binder Unit :=
  if className.isEmpty then return ()
  else modify fun state =>
    { state with target := { state.target with className := some className } }

/-- Runs a binder on a new record and gives that record. -/
def Binder.onNew (bind : Binder Unit) : Decoder Record := fun cursor =>
  match bind ⟨cursor, Record.new⟩ with
  | .ok _ state => .ok state.target state.cursor
  | .error e state => .error e state.cursor

namespace Decoding

variable (context : Context) (input : List UInt8)

/-! ## Slots -/

/-- A body that a slot pointed at: the tag it was read under, the value, and where it ended. -/
structure Placed where
  tag : TypeTag
  value : Value
  last : Nat

/-- The tag of a slot: the one its type is pinned to, else the byte behind the pointer. -/
def readSlotTag : (pinned : Option TypeTag) → Decoder TypeTag
  | some tag => return tag
  | none => Cursor.tag input

/-- Reads the body at `target` and puts the cursor back. -/
def readAt (inner : BodyReader) (tag : TypeTag) (target : Nat) : Decoder Placed := do
  let resume ← Cursor.offset
  Cursor.seek input target
  let value ← inner tag
  let last ← Cursor.offset
  Cursor.seek input resume
  return ⟨tag, value, last⟩

/-- The value behind a slot; a slot without a body is null. -/
def Placed.valueOf (placed : Option Placed) : Value := (placed.map (·.value)).getD .null

/-- Where the body behind a slot ended; a slot without a body ends nowhere. -/
def Placed.endOf (placed : Option Placed) : Nat := (placed.map (·.last)).getD 0

/-- Reads a slot and the body it points at, and leaves the cursor behind the slot.  A zero pointer
has no body, whatever the tag beside it. -/
def readSlot (inner : BodyReader) (pinned : Option TypeTag) : Decoder (Option Placed) := do
  let start ← Cursor.offset
  let pointer := (← Cursor.word32 input).toInt32
  let tag ← readSlotTag input pinned
  if pointer = Slot.nullPointer then return none
  else if pointer.toInt < 0 then Decoder.malformed start (.negativePointer pointer)
  else return some (← readAt input inner tag pointer.toInt.toNat)

/-- Moves the cursor on to the furthest end of a body, if it is not there yet. -/
def finish (last : Nat) : Decoder Unit := do
  if (← Cursor.offset) < last then Cursor.seek input last

/-! ## Lists, sets and maps -/

/-- The tag of an element: the one declared for them all, or its own where that is left open. -/
def readItemTag (declared : TypeTag) : Decoder TypeTag :=
  if declared = .any then Cursor.tag input else return declared

/-- Reads an element.  The tag `any` before an element says that it is absent. -/
def readItem (inner : BodyReader) (declared : TypeTag) : Decoder Value := do
  let tag ← readItemTag input declared
  if tag = .any then return .null else inner tag

/-- Reads the elements of a list or set behind their number and the tag declared for them all. -/
def readItems (inner : BodyReader) : Decoder (List Value) := do
  let count ← Cursor.length input
  let start ← Cursor.offset
  let declared ← Cursor.tag input
  if declared = .transient then Decoder.malformed start .transientElements
  else times (readItem input inner declared) count

/-- Reads a member of a map: its key and its slot. -/
def readMember (inner : BodyReader) : Decoder (String × Option Placed) := do
  let key ← readMapKey input
  let placed ← readSlot input inner none
  return (key, placed)

/-- Reads a map: the number of its members, then the table of them. -/
def readMap (inner : BodyReader) : Decoder (List (String × Value)) := do
  let count ← Cursor.length input
  let members ← times (readMember input inner) count
  finish input (members.foldl (fun last member => max last (Placed.endOf member.2)) 0)
  return OrderedMap.ofList (members.map fun member => (member.1, Placed.valueOf member.2))

/-! ## Records -/

/-- The name of a field in a header, and the type that the schema pins it to. -/
structure Heading where
  name : String
  pinned : Option TypeTag

/-- The property under an id, if there is a schema. -/
def property? (id : Int32) : Option Property := context.schema.bind (·.byId? id)

/-- Reads what an entry of a header begins with: a length above zero and the name of that many
bytes, a property id as the negative of the id less one, or the zero that ends the header. -/
def readHeading : Decoder (Option Heading) := do
  let start ← Cursor.offset
  let lead := (← Cursor.varint32 input).toInt
  if lead = 0 then return none
  else if 0 < lead then
    let bytes ← Cursor.take input lead.toNat
    match Utf8.decode bytes with
    | .ok name => return some ⟨name, none⟩
    | .error _ => Decoder.malformed start .invalidFieldName
  else
    let id := Int32.ofInt (-lead - 1)
    match property? context id with
    | some property => return some ⟨property.name, property.concreteType?⟩
    | none => throw (.codec (.unresolvedProperty id start))

/-- A projection, if there is one, asks for the field. -/
def isWanted (projection : Option (List String)) (name : String) : Bool :=
  projection.all (·.contains name)

/-- Reads the entries of a header and binds the fields that are wanted and not there yet.  `last`
is the furthest end of a body so far and `bound` the number of fields bound; the answer is the
furthest end of all.

Every entry hands out at least one byte, so the budget ends before the entries do once `room`
exceeds the length of the input; running out of room is therefore the same failure. -/
def readFields (inner : BodyReader) (projection : Option (List String)) :
    (room last bound : Nat) → Binder Nat
  | 0, _, _ => do
    let start ← Cursor.offset
    (Decoder.malformed start (.overlap input.length) : Decoder Nat)
  | room + 1, last, bound => do
    match ← readHeading context input with
    | none => return last
    | some heading =>
      let target := (← get).target
      if !isWanted projection heading.name || target.contains heading.name then
        Cursor.skip input (Slot.size heading.pinned.isSome)
        readFields inner projection room last bound
      else
        let placed ← readSlot input inner heading.pinned
        Binder.bindField heading.name (Placed.valueOf placed) (placed.map (·.tag))
        let last := max last (Placed.endOf placed)
        match projection with
        | none => readFields inner projection room last (bound + 1)
        | some wanted =>
          if wanted.length ≤ bound + 1 then return last
          else readFields inner projection room last (bound + 1)

/-- Reads a record into the target. -/
def readRecord (inner : BodyReader) (projection : Option (List String)) : Binder Unit := do
  let className ← Cursor.string input
  Binder.bindClass className
  let last ← readFields context input inner projection (input.length + 1) 0 0
  finish input last

/-- Reads an embedded record.  One that has a class name in the field set aside for it stands for
a serializable object, which is made from the rest of it; any other is owned by the record it
stands in. -/
def readEmbedded (inner : BodyReader) : Decoder Value := do
  let record ← (readRecord context input inner none).onNew
  match record.field? Record.serializableClassField with
  | some (.string className) =>
    match context.registry with
    | none => throw (.codec (.unregisteredType className))
    | some registry =>
      let object ← orThrow
        (registry.makeSerializable className (record.remove Record.serializableClassField).2)
      return .serializable object.className object.record
  | _ => return .embedded { record with isEmbedded := true }

end Decoding
end DocumentCodec
