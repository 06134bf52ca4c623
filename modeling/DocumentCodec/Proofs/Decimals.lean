import DocumentCodec.Proofs.RoundTrip.Scalar
import DocumentCodec.Proofs.Writing
/-!
# Decimals are stored exactly

The unscaled part of a decimal is an integer of any size.  It is written in the fewest bytes of
two's complement and read from however many: the bytes that stand for an integer are its shortest
form, with bytes in front that do nothing but repeat the sign.  So no form of an integer is missed,
none stands for another, and the shortest is the one without such bytes.

What the reader makes of bytes is what a word of so many bits is as a signed number.  That two forms
of one length are the same bytes rests on the digits alone (`decode_inj`); that a repeated sign
changes nothing is the one step over the length.
-/

namespace DocumentCodec

namespace BigEndian

/-! ## Two's complement -/

/-- The signed number that bytes are as one word, highest byte first.  A word of no bits is zero. -/
def twosComplement (bytes : List UInt8) : Int :=
  (BitVec.ofNat (8 * bytes.length) (decode bytes)).toInt

theorem decodeSigned_cons (b : UInt8) (rest : List UInt8) : decodeSigned (b :: rest)
    = if b.toNat < 128 then (decode (b :: rest) : Int)
      else decode (b :: rest) - (256 ^ (b :: rest).length : Nat) := rfl

/-- The reader takes bytes for the word that they are. -/
theorem decodeSigned_eq_twosComplement (bytes : List UInt8) :
    decodeSigned bytes = twosComplement bytes := by
  cases bytes with
  | nil => rfl
  | cons b rest =>
    have size : 2 ^ (8 * (b :: rest).length) = 256 ^ (b :: rest).length := Nat.pow_mul 2 8 _
    have below := decode_lt rest
    have digit := b.toNat_lt
    rw [twosComplement, BitVec.toInt_eq_toNat_cond, BitVec.toNat_ofNat, size,
      Nat.mod_eq_of_lt (decode_lt _), decodeSigned_cons]
    rw [decode_cons, List.length_cons, Nat.pow_succ]
    -- the highest bit of the first byte is the highest of the word
    by_cases plus : b.toNat < 128
    · have top : b.toNat * 256 ^ rest.length ≤ 127 * 256 ^ rest.length :=
        Nat.mul_le_mul_right _ (by omega)
      rw [if_pos plus, if_pos (by omega)]
    · have bottom : 128 * 256 ^ rest.length ≤ b.toNat * 256 ^ rest.length :=
        Nat.mul_le_mul_right _ (by omega)
      rw [if_neg plus, if_neg (by omega)]

/-! ## The forms of a number

The bytes that stand for a number are its shortest form behind any number of bytes that repeat the
sign.  So two forms of one number differ in how many of those there are. -/

/-- The byte that only repeats the sign of a number. -/
def signByte (n : Int) : UInt8 := if n < 0 then 0xFF else 0

/-- The first byte shows the sign. -/
theorem decodeSigned_neg_iff (b : UInt8) (rest : List UInt8) :
    decodeSigned (b :: rest) < 0 ↔ 128 ≤ b.toNat := by
  have below := decode_lt (b :: rest)
  rw [decodeSigned_cons]
  split
  · omega
  · omega

/-- A byte more that repeats the sign changes nothing. -/
theorem decodeSigned_signByte_cons {bytes : List UInt8} (some : bytes ≠ []) :
    decodeSigned (signByte (decodeSigned bytes) :: bytes) = decodeSigned bytes := by
  obtain ⟨b, rest, rfl⟩ := List.exists_cons_of_ne_nil some
  rw [signByte]
  by_cases minus : 128 ≤ b.toNat
  · -- a negative number: the byte adds 255 times the power of the bytes, and the sign takes off 256
    -- times it
    have longer : 256 ^ (0xFF :: b :: rest).length = 256 ^ (b :: rest).length * 256 := rfl
    rw [if_pos ((decodeSigned_neg_iff b rest).mpr minus), decodeSigned_cons, decodeSigned_cons,
      if_neg (by decide), if_neg (by omega), decode_cons, longer]
    show ((255 * 256 ^ (b :: rest).length + decode (b :: rest) : Nat) : Int) - _ = _
    omega
  · -- any other number: the byte adds nothing, and nothing is taken off
    rw [if_neg ((decodeSigned_neg_iff b rest).not.mpr minus), decodeSigned_cons, decodeSigned_cons,
      if_pos (by decide), if_pos (by omega), decode_cons]
    show ((0 * 256 ^ (b :: rest).length + decode (b :: rest) : Nat) : Int) = _
    rw [Nat.zero_mul, Nat.zero_add]

/-- Nor do more of them. -/
theorem decodeSigned_padded {bytes : List UInt8} (some : bytes ≠ []) (padding : Nat) :
    decodeSigned (List.replicate padding (signByte (decodeSigned bytes)) ++ bytes)
      = decodeSigned bytes := by
  induction padding with
  | zero => rfl
  | succ padding ih =>
    have longer : List.replicate padding (signByte (decodeSigned bytes)) ++ bytes ≠ [] :=
      List.append_ne_nil_of_right_ne_nil _ some
    have step := decodeSigned_signByte_cons longer
    rw [ih] at step
    exact step

/-- Digits of one number that are as many are the same. -/
theorem decode_inj : ∀ {bytes other : List UInt8}, bytes.length = other.length →
    decode bytes = decode other → bytes = other := by
  intro bytes
  induction bytes with
  | nil =>
    intro other size _
    exact (List.length_eq_zero_iff.mp size.symm).symm
  | cons b rest ih =>
    intro other size same
    cases other with
    | nil => cases size
    | cons b' rest' =>
      have size : rest.length = rest'.length := Nat.succ.inj size
      have low := decode_lt rest
      have low' := decode_lt rest'
      rw [decode_cons, decode_cons, size] at same
      rw [size] at low
      -- what the digits behind the first come to is the remainder
      have unit : 0 < 256 ^ rest'.length := Nat.pow_pos (by decide)
      have first := congrArg (· / 256 ^ rest'.length) same
      have others := congrArg (· % 256 ^ rest'.length) same
      simp only [Nat.mul_comm _ (256 ^ rest'.length), Nat.mul_add_div unit, Nat.div_eq_of_lt low,
        Nat.div_eq_of_lt low', Nat.add_zero, Nat.mul_add_mod, Nat.mod_eq_of_lt low,
        Nat.mod_eq_of_lt low'] at first others
      rw [UInt8.toNat_inj.mp first, ih size others]

/-- Forms of one number that are of one length are the same. -/
theorem decodeSigned_inj {bytes other : List UInt8} (size : bytes.length = other.length)
    (same : decodeSigned bytes = decodeSigned other) : bytes = other := by
  cases bytes with
  | nil => exact (List.length_eq_zero_iff.mp size.symm).symm
  | cons b rest =>
    cases other with
    | nil => cases size
    | cons b' rest' =>
      -- equal numbers have equal signs, so the same power was taken off both, or off neither
      have sign : 128 ≤ b.toNat ↔ 128 ≤ b'.toNat := by
        rw [← decodeSigned_neg_iff b rest, ← decodeSigned_neg_iff b' rest', same]
      refine decode_inj size ?_
      rw [decodeSigned_cons, decodeSigned_cons, size] at same
      by_cases plus : b.toNat < 128
      · rw [if_pos plus, if_pos (by omega)] at same
        exact Int.ofNat_inj.mp same
      · rw [if_neg plus, if_neg (by omega)] at same
        omega

theorem length_encodeSigned (n : Int) : (encodeSigned n).length = signedWidth n :=
  length_encode _ _

/-- Even zero has a byte. -/
theorem encodeSigned_ne_nil (n : Int) : encodeSigned n ≠ [] := by
  obtain ⟨width, size, -⟩ := signedWidth_spec n
  refine List.ne_nil_of_length_pos ?_
  rw [length_encodeSigned, size]
  exact Nat.succ_pos width

/-- **The forms of a number** are its shortest one with bytes in front that repeat the sign. -/
theorem twosComplement_eq_iff {n : Int} {bytes : List UInt8} : bytes ≠ [] ∧ twosComplement bytes = n ↔
    ∃ padding, bytes = List.replicate padding (signByte n) ++ encodeSigned n := by
  rw [← decodeSigned_eq_twosComplement]
  have padded := decodeSigned_padded (encodeSigned_ne_nil n)
  rw [decodeSigned_encodeSigned] at padded
  constructor
  · rintro ⟨some, rfl⟩
    -- padded to their length, the shortest form stands for the same number, and so it is these
    -- bytes
    have shorter := length_encodeSigned_decodeSigned bytes
    have nonempty := List.length_pos_iff.mpr some
    refine ⟨bytes.length - (encodeSigned (decodeSigned bytes)).length, decodeSigned_inj ?_ ?_⟩
    · rw [List.length_append, List.length_replicate]
      omega
    · rw [padded]
  · rintro ⟨padding, rfl⟩
    exact ⟨List.append_ne_nil_of_right_ne_nil _ (encodeSigned_ne_nil n), padded padding⟩

/-! ## Words that were read -/

/-- Bytes are the word that they are read as. -/
theorem encode32_decode {bytes : List UInt8} (four : bytes.length = 4) :
    encode32 (UInt32.ofNat (decode bytes)) = bytes := by
  have below : decode bytes < 256 ^ 4 := four ▸ decode_lt bytes
  refine decode_inj ((length_encode 4 _).trans four.symm) ?_
  rw [encode32, UInt32.toNat_ofNat_of_lt' below, decode_encode_of_lt below]

/-- A word without a sign is the number of its digits. -/
theorem encode_toInt {word : UInt32} (natural : 0 ≤ word.toInt32.toInt) :
    word.toInt32.toInt.toNat < 2 ^ 31 ∧ encode 4 word.toInt32.toInt.toNat = encode32 word := by
  have signed : word.toInt32.toInt = if 2 * word.toNat < 2 ^ 32 then (word.toNat : Int)
      else word.toNat - (2 ^ 32 : Nat) := BitVec.toInt_eq_toNat_cond word.toBitVec
  have below := word.toNat_lt
  have same : word.toInt32.toInt.toNat = word.toNat := by
    split at signed <;> omega
  have small : word.toNat < 2 ^ 31 := by
    split at signed <;> omega
  rw [same]
  exact ⟨small, rfl⟩

end BigEndian

/-- A word that was read stands where the cursor stood. -/
theorem Cursor.of_word32_ok {input : List UInt8} {word : UInt32} {here there : Cursor}
    (read : word32 input here = .ok word there) :
    Holds input here.position (BigEndian.encode32 word) ∧ here.visited + 4 ≤ input.length ∧
      there = ⟨here.position + 4, here.visited + 4⟩ := by
  obtain ⟨bytes, mid, taken, same⟩ := run_bind_eq_ok.mp read
  cases same
  have whole := length_of_take_ok input taken
  obtain ⟨inside, allowed, rfl, rfl⟩ := of_take_ok input taken
  refine ⟨?_, allowed, rfl⟩
  rw [BigEndian.encode32_decode]
  · exact Holds.take (by omega)
  · exact whole

namespace Decimal

/-! ## Bodies

What is read of a body is a scale and a number, and neither of them needs the bytes that say the
number's length. -/

/-- The body of a decimal with this unscaled part: its scale, the length of that part, and the
part. -/
def body (scale : Int32) (unscaled : List UInt8) : List UInt8 :=
  BigEndian.encode32 scale.toUInt32 ++ BigEndian.encode 4 unscaled.length ++ unscaled

/-- **What is read as a decimal** is a body with any bytes for the unscaled part, which stand for
the number that they are in two's complement, and all of them are taken. -/
theorem readDecimal_eq_ok_iff {input : List UInt8} {here there : Cursor} {made : Decimal} :
    Decoding.readDecimal input here = .ok made there ↔
      ∃ scale unscaled, unscaled.length < 2 ^ 31 ∧
        Holds input here.position (body scale unscaled) ∧
        here.visited + (body scale unscaled).length ≤ input.length ∧
        made = ⟨BigEndian.twosComplement unscaled, scale.toInt64⟩ ∧
        there = ⟨here.position + (body scale unscaled).length,
          here.visited + (body scale unscaled).length⟩ := by
  have size (scale : Int32) (unscaled : List UInt8) :
      (body scale unscaled).length = 8 + unscaled.length := by
    rw [body, List.length_append, List.length_append, BigEndian.encode32, BigEndian.length_encode,
      BigEndian.length_encode]
  constructor
  · intro read
    obtain ⟨scale, mid, first, read⟩ := run_bind_eq_ok.mp read
    obtain ⟨scaled, -, rfl⟩ := Cursor.of_word32_ok first
    -- the place of the length is looked up for the error, which is not raised here
    obtain ⟨start, mid, stay, read⟩ := run_bind_eq_ok.mp read
    cases stay
    obtain ⟨count, mid, second, read⟩ := run_bind_eq_ok.mp read
    obtain ⟨counted, -, rfl⟩ := Cursor.of_word32_ok second
    dsimp only at read
    split at read
    · cases read
    · next natural =>
      obtain ⟨unscaled, mid, taken, same⟩ := run_bind_eq_ok.mp read
      cases same
      have long := Cursor.length_of_take_ok input taken
      obtain ⟨inside, allowed, cut, rfl⟩ := Cursor.of_take_ok input taken
      dsimp only at inside allowed cut
      obtain ⟨fits, word⟩ := BigEndian.encode_toInt (Int.not_lt.mp natural)
      have held : Holds input (here.position + 4 + 4) unscaled := cut ▸ Holds.take (by omega)
      refine ⟨scale.toInt32, unscaled, long ▸ fits, ?_, ?_, ?_, ?_⟩
      · rw [body, long, word]
        exact (scaled.append counted).append held
      · rw [size]
        omega
      · rw [BigEndian.decodeSigned_eq_twosComplement]
      · rw [size, long, Cursor.mk.injEq]
        dsimp only
        omega
  · rintro ⟨scale, unscaled, fits, holds, budget, rfl, rfl⟩
    have back : ReadsBack True Failure.Unsaid input _ here.position _ _ :=
      ReadsBack.decimalBody scale fits
    obtain ⟨made, read, rfl⟩ := (back holds here.visited budget).of_exact
    rw [← BigEndian.decodeSigned_eq_twosComplement]
    exact read

/-- **A decimal is stored exactly.** One whose scale is a signed 32-bit word and whose unscaled part
is short enough for a length is written, and no other.  The unscaled part goes out in its shortest
form: all others have bytes in front that repeat the sign, apart from the empty one, which is zero
too.  What was written is read back as it was, with the scale that it had, and nothing behind it is
touched.

And whatever an input holds, a decimal is read exactly where a body stands, with any bytes for the
unscaled part, none of them and padded ones included: they stand for what they are in two's
complement. -/
theorem stored_exactly (number : Decimal) :
    (∀ (field : String) (start : Nat) (earlier calls : List LinkTarget) (bytes : List UInt8),
      Encoding.writeDecimal field number start earlier = ⟨bytes, calls, .ok ()⟩ ↔
        Signed.Fits32 number.scale.toInt ∧
        (BigEndian.encodeSigned number.unscaled).length < 2 ^ 31 ∧
        bytes = body number.scale.toInt32 (BigEndian.encodeSigned number.unscaled) ∧ calls = []) ∧
    (∀ form : List UInt8, form ≠ [] ∧ BigEndian.twosComplement form = number.unscaled ↔
      ∃ padding, form = List.replicate padding (BigEndian.signByte number.unscaled)
        ++ BigEndian.encodeSigned number.unscaled) ∧
    BigEndian.twosComplement [] = 0 ∧
    (∀ (field : String) (start : Nat) (earlier calls : List LinkTarget) (bytes input : List UInt8)
      (here : Cursor),
      Encoding.writeDecimal field number start earlier = ⟨bytes, calls, .ok ()⟩ →
      Holds input here.position bytes → here.visited + bytes.length ≤ input.length →
      Decoding.readDecimal input here
        = .ok number ⟨here.position + bytes.length, here.visited + bytes.length⟩) ∧
    ∀ (input : List UInt8) (here there : Cursor) (made : Decimal),
      Decoding.readDecimal input here = .ok made there ↔
        ∃ scale unscaled, unscaled.length < 2 ^ 31 ∧
          Holds input here.position (body scale unscaled) ∧
          here.visited + (body scale unscaled).length ≤ input.length ∧
          made = ⟨BigEndian.twosComplement unscaled, scale.toInt64⟩ ∧
          there = ⟨here.position + (body scale unscaled).length,
            here.visited + (body scale unscaled).length⟩ := by
  refine ⟨?written, fun form => BigEndian.twosComplement_eq_iff, rfl, ?back,
    fun input here there made => readDecimal_eq_ok_iff⟩
  case written =>
    intro field start earlier calls bytes
    constructor
    · exact Encoding.writeDecimal_eq_ok
    · rintro ⟨scaled, short, rfl, rfl⟩
      exact Encoding.writes_decimal scaled short earlier
  case back =>
    intro field start earlier calls bytes input here run holds budget
    obtain ⟨-, back⟩ : _ ∧ ReadsBack True Failure.Unsaid input _ here.position bytes _ :=
      ReadsBack.decimal run
    obtain ⟨made, read, rfl⟩ := (back holds here.visited budget).of_exact
    exact read

/-- A sign byte is needed as soon as the highest bit shows the wrong sign. -/
example : BigEndian.encodeSigned 127 = [0x7F] ∧ BigEndian.encodeSigned 128 = [0, 0x80] ∧
    BigEndian.encodeSigned (-128) = [0x80] ∧ BigEndian.encodeSigned (-129) = [0xFF, 0x7F] := by
  decide +kernel

end Decimal
end DocumentCodec
