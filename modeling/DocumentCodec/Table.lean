import DocumentCodec.Encoder
import DocumentCodec.Slot
/-!
# Tables of slots

Records and maps are laid out alike: a header with one entry for each member, then the bodies of
the members in the same order.  An entry is a label and a slot.  The slot holds the absolute offset
of the member's body and, unless the type is pinned by a schema, the tag the body was written
under; a member that is null has no body, and its slot is zero.

    head | label slot | label slot | tail | body | body
                 '------------------------^
                              '------------------^

The size of the header is known before any body is, so bodies are written once, at their final
offsets.  When a body cannot be written, what is left is the whole header, the bodies before it
with their slots filled in, and whatever the failing body emitted; its slot and those after it stay
zero.
-/

namespace DocumentCodec

/-! ## Entries -/

/-- A member of a table: what names it, whether its type is pinned, and how its body is written,
which answers with the tag; a null member has no body. -/
structure Entry where
  label : List UInt8
  pinned : Bool
  body : Option (Encoder TypeTag)

/-- The size of an entry in the header. -/
def Entry.size (entry : Entry) : Nat := entry.label.length + Slot.size entry.pinned

/-- The size of all entries. -/
def Entry.sizeAll : List Entry → Nat
  | [] => 0
  | entry :: rest => entry.size + Entry.sizeAll rest

/-- The bytes of the entries, each slot with its filling; entries past the last filling have
none. -/
def Entry.encodeAll : List Entry → List (Option Filling) → List UInt8
  | [], _ => []
  | entry :: rest, fillings =>
    entry.label ++ Slot.encode entry.pinned fillings.head?.join
      ++ Entry.encodeAll rest fillings.tail

/-- What is filled in changes no byte count, since a slot is as long empty as it is filled. -/
theorem Entry.length_encodeAll (entries : List Entry) (fillings : List (Option Filling)) :
    (Entry.encodeAll entries fillings).length = Entry.sizeAll entries := by
  induction entries generalizing fillings with
  | nil => rfl
  | cons entry rest ih => simp [Entry.encodeAll, Entry.sizeAll, ih, Entry.size, Nat.add_assoc]

/-! ## Bodies -/

/-- What came out of writing bodies one behind the other: the slots' fillings for the members that
were finished, the bytes, the resolver's calls, and the first failure. -/
structure Bodies where
  fillings : List (Option Filling)
  bytes : List UInt8
  calls : List LinkTarget
  result : Except CodecError Unit

/-- Writes bodies one behind the other from offset `start` on and stops at the first failure. -/
def Bodies.write : List (Option (Encoder TypeTag)) → (start : Nat) → (earlier : List LinkTarget) →
    Bodies
  | [], _, _ => ⟨[], [], [], .ok ()⟩
  | none :: rest, start, earlier =>
    let later := Bodies.write rest start earlier
    { later with fillings := none :: later.fillings }
  | some body :: rest, start, earlier =>
    let here := body start earlier
    match here.result with
    | .error e => ⟨[], here.bytes, here.calls, .error e⟩
    | .ok tag =>
      let later := Bodies.write rest (start + here.bytes.length) (earlier ++ here.calls)
      ⟨some ⟨start, tag⟩ :: later.fillings, here.bytes ++ later.bytes,
        here.calls ++ later.calls, later.result⟩

/-- Writes a table: the header between `head` and `tail`, then the bodies. -/
def writeTable (head : List UInt8) (entries : List Entry) (tail : List UInt8) : Encoder Unit :=
  fun start earlier =>
    let headerSize := head.length + Entry.sizeAll entries + tail.length
    let bodies := Bodies.write (entries.map (·.body)) (start + headerSize) earlier
    ⟨head ++ Entry.encodeAll entries bodies.fillings ++ tail ++ bodies.bytes, bodies.calls,
      bodies.result⟩

end DocumentCodec
