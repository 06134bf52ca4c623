import DocumentCodec.Number.BigEndian
/-!
# The arena

The buffer that records are written into.  It only grows: every operation that adds bytes answers
with the offset at which they begin, and that offset stays good.  Bytes that were handed out may be
overwritten in place, but no write reaches past the end.

Offsets are 64-bit words, so a write whose end is no such word is told apart from one that ends
past the arena.
-/

namespace DocumentCodec

/-- Bytes that were handed out so far. -/
structure Arena where
  bytes : Array UInt8
deriving DecidableEq

/-- Why a write in place is refused. -/
inductive ArenaError where
  /-- the end of the write is no 64-bit offset -/
  | offsetOverflow (offset : Nat)
  /-- the write ends past the arena -/
  | outOfRange (offset last length : Nat)
deriving DecidableEq, Repr

/-- The text of a refusal. -/
def ArenaError.message : ArenaError → String
  | .offsetOverflow offset => s!"write_at offset {offset} overflows"
  | .outOfRange offset last length =>
    s!"write_at range {offset}..{last} exceeds arena length {length}"

namespace Arena

/-- The arena before anything was handed out. -/
def empty : Arena := ⟨#[]⟩

/-- The bytes as a list: the view in which the operations are described. -/
def toList (arena : Arena) : List UInt8 := arena.bytes.toList

/-- The number of bytes handed out. -/
def size (arena : Arena) : Nat := arena.bytes.size

/-- Nothing was handed out yet. -/
def isEmpty (arena : Arena) : Bool := arena.bytes.isEmpty

/-- Adds `data` and answers with its offset. -/
def append (arena : Arena) (data : List UInt8) : Nat × Arena :=
  (arena.size, ⟨arena.bytes ++ data⟩)

/-- Adds `n` zero bytes and answers with the offset of the first. -/
def allocate (arena : Arena) (n : Nat) : Nat × Arena :=
  arena.append (List.replicate n 0)

/-- Puts `data` over the bytes from `offset` on. -/
def overwrite (bytes : Array UInt8) (offset : Nat) : List UInt8 → Array UInt8
  | [] => bytes
  | b :: rest => overwrite (bytes.setIfInBounds offset b) (offset + 1) rest

/-- Overwrites bytes that were handed out before. -/
def writeAt (arena : Arena) (offset : Nat) (data : List UInt8) : Except ArenaError Arena :=
  let last := offset + data.length
  if UInt64.size ≤ last then .error (.offsetOverflow offset)
  else if arena.size < last then .error (.outOfRange offset last arena.size)
  else .ok ⟨overwrite arena.bytes offset data⟩

/-- Overwrites four bytes by a signed word. -/
def patch32 (arena : Arena) (offset : Nat) (v : Int32) : Except ArenaError Arena :=
  arena.writeAt offset (BigEndian.encode32 v.toUInt32)

/-! ## The operations in the list view -/

@[simp] theorem toList_append (arena : Arena) (data : List UInt8) :
    (arena.append data).2.toList = arena.toList ++ data := by
  simp [append, toList]

@[simp] theorem length_toList (arena : Arena) : arena.toList.length = arena.size := by
  simp [toList, size]

/-- Bytes written over a place stand there, and all others stand where they did. -/
theorem toList_overwrite (data : List UInt8) : ∀ (bytes : Array UInt8) (offset : Nat),
    offset + data.length ≤ bytes.size →
    (overwrite bytes offset data).toList
      = bytes.toList.take offset ++ data ++ bytes.toList.drop (offset + data.length) := by
  induction data with
  | nil => intro bytes offset _; simp [overwrite]
  | cons b rest ih =>
    intro bytes offset fits
    simp only [List.length_cons] at fits
    have step := ih (bytes.setIfInBounds offset b) (offset + 1) (by simp; omega)
    show (overwrite (bytes.setIfInBounds offset b) (offset + 1) rest).toList = _
    rw [step, Array.toList_setIfInBounds]
    have inside : offset < bytes.size := by omega
    have head : (bytes.toList.set offset b).take (offset + 1) = bytes.toList.take offset ++ [b] := by
      rw [List.set_eq_take_append_cons_drop, if_pos (by simpa using inside), List.take_append]
      have room : offset + 1 - min offset bytes.size = 1 := by omega
      simp [List.take_take, room]
    have tail : (bytes.toList.set offset b).drop (offset + 1 + rest.length)
        = bytes.toList.drop (offset + (b :: rest).length) := by
      rw [List.drop_set_of_lt (by omega)]
      congr 1
      simp only [List.length_cons]
      omega
    rw [head, tail]
    simp

end Arena
end DocumentCodec
