import DocumentCodec.Error
import DocumentCodec.Number.BigEndian
import DocumentCodec.Number.Signed
/-!
# Reading from a cursor

Decoding moves a cursor over the input: it takes bytes at the cursor, and it jumps, because a slot
points at a body that stands elsewhere.

In a well-formed encoding every byte belongs to one place, so a decoder reads each at most once.
The cursor therefore counts the bytes it hands out, and no more are handed out than the input has:
input whose slots share bodies runs out of this budget instead of unfolding into exponentially
many values.

A `Decoder` keeps the cursor when it fails, so it can be seen how far it came.
-/

namespace DocumentCodec

/-- Where the next byte is taken, and how many were handed out since the budget was last reset. -/
structure Cursor where
  position : Nat
  visited : Nat
deriving DecidableEq, Repr

/-- A computation that moves a cursor and may fail. -/
abbrev Decoder := EStateM Failure Cursor

/-- Fails: the bytes at `offset` are no record. -/
def Decoder.malformed {α : Type} (offset : Nat) (reason : Malformation) : Decoder α :=
  throw (.codec (.malformedInput offset reason))

namespace Cursor

/-- The cursor before the first byte, with the whole budget. -/
def start : Cursor := ⟨0, 0⟩

/-- Where the cursor is. -/
def offset : Decoder Nat := return (← get).position

/-- Gives the decoder its whole budget again. -/
def resetBudget : Decoder Unit := modify fun c => { c with visited := 0 }

variable (input : List UInt8)

/-- The bytes from the cursor on. -/
def remaining : Decoder (List UInt8) := return input.drop (← get).position

/-- Puts the cursor at `target`, which may be the end of the input. -/
def seek (target : Nat) : Decoder Unit := do
  let here ← get
  if input.length < target then
    Decoder.malformed here.position (.seekBeyondEnd target input.length)
  else set { here with position := target }

/-- Takes `count` bytes at the cursor. -/
def take (count : Nat) : Decoder (List UInt8) := do
  let here ← get
  if input.length < here.position + count then
    Decoder.malformed here.position (.tooFewBytes count (input.length - here.position))
  else if input.length < here.visited + count then
    Decoder.malformed here.position (.overlap input.length)
  else
    set (Cursor.mk (here.position + count) (here.visited + count))
    return (input.drop here.position).take count

/-- Steps over `count` bytes, which count as handed out. -/
def skip (count : Nat) : Decoder Unit := do
  let _ ← take input count

/-- Takes one byte. -/
def byte : Decoder UInt8 := return (← take input 1).headD 0

/-! ## Words and lengths -/

/-- Takes a varint. -/
def varint : Decoder UInt64 := do
  let here ← get
  match Varint.decode (input.drop here.position) with
  | .error cause => Decoder.malformed here.position (.varint cause)
  | .ok (v, count) =>
    skip input count
    return v

/-- Takes a varint for the signed word whose two's complement it is. -/
def signedVarint : Decoder Int64 := return (← varint input).toInt64

/-- Takes a signed varint that fits 32 bits. -/
def varint32 : Decoder Int32 := do
  let start ← offset
  let v ← signedVarint input
  if Signed.Fits32 v.toInt then return v.toInt32
  else Decoder.malformed start (.varintTooWide v 32)

/-- Takes a signed varint that fits 16 bits. -/
def varint16 : Decoder Int16 := do
  let start ← offset
  let v ← signedVarint input
  if Signed.Fits16 v.toInt then return v.toInt16
  else Decoder.malformed start (.varintTooWide v 16)

/-- Takes a length or a count. -/
def length : Decoder Nat := do
  let start ← offset
  let v ← varint32 input
  if 0 ≤ v.toInt then return v.toInt.toNat
  else Decoder.malformed start (.negativeLength v)

/-- Takes a 32-bit word in four bytes. -/
def word32 : Decoder UInt32 := return UInt32.ofNat (BigEndian.decode (← take input 4))

/-- Takes a 64-bit word in eight bytes. -/
def word64 : Decoder UInt64 := return UInt64.ofNat (BigEndian.decode (← take input 8))

/-! ## Byte strings and text -/

/-- Takes a length and that many bytes. -/
def binary : Decoder (List UInt8) := do
  let count ← length input
  take input count

/-- Takes a length and that many bytes of text. -/
def string : Decoder String := do
  let start ← offset
  let bytes ← binary input
  match Utf8.decode bytes with
  | .ok text => return text
  | .error cause => Decoder.malformed start (.invalidString cause)

/-- Takes the tag that one byte stands for. -/
def tag : Decoder TypeTag := do
  let start ← offset
  let id ← byte input
  match TypeTag.ofId? id with
  | some tag => return tag
  | none => Decoder.malformed start (.unknownTag id)

end Cursor
end DocumentCodec
