/-!
# Big-endian numbers

Words of a fixed width, highest byte first, and signed numbers of any size in the fewest bytes
of two's complement.  A number that stands in a slot is a word; the unscaled part of a decimal
is a signed number of any size.
-/

namespace DocumentCodec.BigEndian

/-! ## Words of a fixed width -/

/-- The low `width` bytes of `n`, highest first. -/
def encode : (width : Nat) → (n : Nat) → List UInt8
  | 0, _ => []
  | width + 1, n => encode width (n / 256) ++ [UInt8.ofNat n]

/-- The number that `bytes` spell, highest first; no bytes spell zero. -/
def decode (bytes : List UInt8) : Nat :=
  bytes.foldl (fun n b => n * 256 + b.toNat) 0

@[simp] theorem length_encode (width n : Nat) : (encode width n).length = width := by
  induction width generalizing n with
  | zero => rfl
  | succ width ih => simp [encode, ih]

/-- A 32-bit word in four bytes. -/
def encode32 (v : UInt32) : List UInt8 := encode 4 v.toNat

/-- A 64-bit word in eight bytes. -/
def encode64 (v : UInt64) : List UInt8 := encode 8 v.toNat

/-! ## Signed numbers of any size -/

/-- The fewest bytes whose two's complement reaches `n`: one bit for the sign beside the bits of
`n`, or of `-n - 1` when `n` is negative.  Zero takes one byte. -/
def signedWidth (n : Int) : Nat :=
  let magnitude := if 0 ≤ n then n.toNat else (-n - 1).toNat
  (if magnitude = 0 then 0 else magnitude.log2 + 1) / 8 + 1

/-- The two's complement of `n` in the fewest bytes, highest first. -/
def encodeSigned (n : Int) : List UInt8 :=
  let width := signedWidth n
  encode width (n % (Nat.pow 256 width : Nat)).toNat

/-- The number whose two's complement `bytes` are, however many of them only repeat the sign;
no bytes are zero. -/
def decodeSigned (bytes : List UInt8) : Int :=
  match bytes.head? with
  | none => 0
  | some first =>
    if first.toNat < 128 then decode bytes
    else (decode bytes : Int) - (Nat.pow 256 bytes.length : Nat)

end DocumentCodec.BigEndian
