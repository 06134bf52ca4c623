/-!
# Varints

A 64-bit word in groups of seven bits, lowest group first; the high bit of a byte says that
another group follows.  A signed word is written as the two's complement of its value, with no
zig-zag step, so every negative number takes all ten bytes.

Both directions are arithmetic in base 128 over `Nat`: `n % 128` is the group, `n / 128` is what
is left.  Reading accepts any spelling of a word in at most ten bytes, a longer one than needed
too, and refuses the first byte that would push a bit out of the word.
-/

namespace DocumentCodec

/-- Why bytes do not begin with a varint. -/
inductive VarintError where
  /-- there is no byte at all -/
  | empty
  /-- the input ends after `count` bytes that all ask for another group -/
  | truncated (count : Nat)
  /-- an eleventh group would follow -/
  | tooLong
  /-- the tenth group holds more than the one bit that is left -/
  | overflow
deriving DecidableEq, Repr

namespace Varint

/-! ## Writing -/

/-- The most bytes that a 64-bit word takes: nine groups hold 63 bits, so one bit is left for a
tenth. -/
def maxLength : Nat := 10

/-- The groups of `n` in base 128, lowest first, all but the last with the high bit set.
`room` bounds their number; `n < 128 ^ room` is enough for nothing to be cut. -/
def groups : (room : Nat) → (n : Nat) → List UInt8
  | 0, _ => []
  | room + 1, n =>
    if n < 128 then [UInt8.ofNat n]
    else UInt8.ofNat (n % 128 + 128) :: groups room (n / 128)

/-- The shortest varint of a word. -/
def encode (v : UInt64) : List UInt8 := groups maxLength v.toNat

/-- The varint of a signed word: the varint of its two's complement. -/
def encodeSigned (v : Int64) : List UInt8 := encode v.toUInt64

/-- The number of bytes `encode` writes: one for each seven bits begun, and one for zero. -/
def length (v : UInt64) : Nat := v.toNat.log2 / 7 + 1

/-- The number of bytes `encodeSigned` writes. -/
def lengthSigned (v : Int64) : Nat := length v.toUInt64

/-! ## Reading -/

/-- Reads the groups from place `index` on: the number they spell and how many there are.
A group in the tenth place may hold one bit only, and that is looked at before the question
whether an eleventh follows. -/
def readGroups (index : Nat) : List UInt8 → Except VarintError (Nat × Nat)
  | [] => .error (if index = 0 then .empty else .truncated index)
  | b :: rest =>
    if index = maxLength then .error .tooLong
    else if index = maxLength - 1 ∧ b.toNat % 128 > 1 then .error .overflow
    else if b.toNat < 128 then .ok (b.toNat, 1)
    else do
      let (high, count) ← readGroups (index + 1) rest
      .ok (b.toNat % 128 + 128 * high, count + 1)

/-- What is read from a group on is that group, if it is the last, or it and what is read behind
it. -/
theorem readGroups_cons_eq_ok {index n count : Nat} {b : UInt8} {rest : List UInt8} :
    readGroups index (b :: rest) = .ok (n, count) ↔
      index ≠ maxLength ∧ ¬(index = maxLength - 1 ∧ b.toNat % 128 > 1) ∧
      ((b.toNat < 128 ∧ n = b.toNat ∧ count = 1) ∨
        (128 ≤ b.toNat ∧ ∃ high fewer, readGroups (index + 1) rest = .ok (high, fewer) ∧
          n = b.toNat % 128 + 128 * high ∧ count = fewer + 1)) := by
  rw [readGroups]
  -- too many groups
  by_cases behind : index = maxLength
  · rw [if_pos behind]
    exact iff_of_false (fun read => by cases read) fun fits => fits.1 behind
  -- a last group too wide for a word
  by_cases wide : index = maxLength - 1 ∧ b.toNat % 128 > 1
  · rw [if_neg behind, if_pos wide]
    exact iff_of_false (fun read => by cases read) fun fits => fits.2.1 wide
  rw [if_neg behind, if_neg wide]
  -- the last group, or one with more behind it
  by_cases last : b.toNat < 128
  · rw [if_pos last]
    constructor
    · intro read
      cases read
      exact ⟨behind, wide, Or.inl ⟨last, rfl, rfl⟩⟩
    · rintro ⟨-, -, ⟨-, rfl, rfl⟩ | ⟨more, -⟩⟩
      · rfl
      · exact absurd last (Nat.not_lt_of_le more)
  · rw [if_neg last]
    constructor
    · intro read
      cases deeper : readGroups (index + 1) rest with
      | error cause =>
        rw [deeper] at read
        cases read
      | ok spelled =>
        obtain ⟨high, fewer⟩ := spelled
        rw [deeper] at read
        cases read
        exact ⟨behind, wide, Or.inr ⟨Nat.le_of_not_lt last, high, fewer, rfl, rfl, rfl⟩⟩
    · rintro ⟨-, -, ⟨small, -⟩ | ⟨-, high, fewer, deeper, rfl, rfl⟩⟩
      · exact absurd small last
      · rw [deeper]
        rfl

/-- The word at the front of `bytes` and the number of bytes it takes. -/
def decode (bytes : List UInt8) : Except VarintError (UInt64 × Nat) := do
  let (n, count) ← readGroups 0 bytes
  .ok (UInt64.ofNat n, count)

/-- The signed word at the front of `bytes` and the number of bytes it takes. -/
def decodeSigned (bytes : List UInt8) : Except VarintError (Int64 × Nat) := do
  let (v, count) ← decode bytes
  .ok (v.toInt64, count)

end Varint

/-- The text of a refused varint. -/
def VarintError.message : VarintError → String
  | .empty => "empty buffer for varint decode"
  | .truncated count => s!"truncated varint after {count} bytes"
  | .tooLong => s!"varint exceeds {Varint.maxLength} bytes"
  | .overflow => "varint overflows 64 bits"

end DocumentCodec
