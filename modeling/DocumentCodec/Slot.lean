import DocumentCodec.Number.BigEndian
import DocumentCodec.TypeTag
/-!
# Slots

A slot stands in a header for a body that stands elsewhere: four bytes for the absolute offset of
the body, and one for the tag it was written under, unless a schema pins the type.  A slot of zeros
stands for no body.
-/

namespace DocumentCodec

namespace Slot

/-- The size of an offset. -/
def pointerSize : Nat := 4

/-- The size of a tag. -/
def tagSize : Nat := 1

/-- The size of a slot whose type a schema pins. -/
def pinnedSize : Nat := pointerSize

/-- The size of a slot that holds the tag as well. -/
def openSize : Nat := pointerSize + tagSize

/-- The size of a slot. -/
def size (pinned : Bool) : Nat := if pinned then pinnedSize else openSize

/-- The offset that stands for no body. -/
def nullPointer : Int32 := 0

/-- The last offset that a slot can hold, the largest signed 32-bit word. -/
def maxPointer : Nat := 2147483647

end Slot

/-- What a slot is filled with: where the body begins and the tag it was written under. -/
structure Filling where
  pointer : Nat
  tag : TypeTag
deriving DecidableEq, Repr

/-- The bytes of a slot; a slot without a filling is zero. -/
def Slot.encode (pinned : Bool) : Option Filling → List UInt8
  | none => List.replicate (Slot.size pinned) 0
  | some filling =>
    BigEndian.encode Slot.pointerSize filling.pointer ++ if pinned then [] else [filling.tag.id]

@[simp] theorem Slot.length_encode (pinned : Bool) (filling : Option Filling) :
    (Slot.encode pinned filling).length = Slot.size pinned := by
  cases pinned <;> cases filling <;>
    simp [Slot.encode, Slot.size, Slot.pinnedSize, Slot.openSize, Slot.tagSize]

end DocumentCodec
