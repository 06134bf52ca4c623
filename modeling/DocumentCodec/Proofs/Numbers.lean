import DocumentCodec.Number.BigEndian
import DocumentCodec.Number.Signed
import DocumentCodec.Text.Utf8
import DocumentCodec.Varint
import Mathlib.Algebra.GroupWithZero.Nat
/-!
# Numbers and text read back what was written

A varint is read back from the front of any bytes that begin with it, and so is every word of a
fixed width; a signed number of any size comes back from the fewest bytes that it is written in;
a string comes back from its bytes.

The varint loop carries one invariant: at place `index` the number that is left, moved back up by
`7 * index` bits, is still a 64-bit word.  It is what keeps the tenth group to one bit.
-/

namespace DocumentCodec

namespace Varint

/-! ## Varints -/

/-- The groups of a number are read back, whatever follows them. -/
theorem readGroups_groups (rest : List UInt8) : ∀ room index n : Nat,
    index + (room + 1) = maxLength → n * 128 ^ index < 2 ^ 64 →
    readGroups index (groups (room + 1) n ++ rest) = .ok (n, (groups (room + 1) n).length) := by
  intro room
  induction room with
  | zero =>
    intro index n place fits
    -- in the last place one bit is left, and it is a group of its own
    obtain rfl : index = 9 := by rw [maxLength] at place; omega
    have small : n < 2 := by omega
    have byte : (UInt8.ofNat n).toNat = n := by rw [UInt8.toNat_ofNat']; omega
    rw [groups, if_pos (by omega)]
    simp only [List.cons_append, List.nil_append, readGroups, byte, List.length_singleton]
    rw [if_neg (by decide), if_neg (by omega), if_pos (by omega)]
  | succ room ih =>
    intro index n place fits
    rw [maxLength] at place
    by_cases last : n < 128
    · have byte : (UInt8.ofNat n).toNat = n := by rw [UInt8.toNat_ofNat']; omega
      rw [groups, if_pos last]
      simp only [List.cons_append, List.nil_append, readGroups, byte, List.length_singleton]
      rw [if_neg (by rw [maxLength]; omega), if_neg (by rw [maxLength]; omega), if_pos last]
    · -- seven bits go into this group, and the rest moves one place on
      have byte : (UInt8.ofNat (n % 128 + 128)).toNat = n % 128 + 128 := by
        rw [UInt8.toNat_ofNat']; omega
      have fits' : n / 128 * 128 ^ (index + 1) < 2 ^ 64 := by
        rw [Nat.pow_succ, Nat.mul_comm (128 ^ index), ← Nat.mul_assoc]
        exact Nat.lt_of_le_of_lt (Nat.mul_le_mul_right _ (Nat.div_mul_le_self n 128)) fits
      have deeper := ih (index + 1) (n / 128) (by rw [maxLength]; omega) fits'
      rw [groups, if_neg last]
      simp only [List.cons_append, readGroups, byte, List.length_cons]
      rw [if_neg (by rw [maxLength]; omega), if_neg (by rw [maxLength]; omega),
        if_neg (by omega), deeper]
      show Except.ok ((n % 128 + 128) % 128 + 128 * (n / 128), _) = Except.ok (n, _)
      rw [show (n % 128 + 128) % 128 + 128 * (n / 128) = n by omega]

/-- A varint is read back, whatever follows it. -/
theorem decode_encode_append (v : UInt64) (rest : List UInt8) :
    decode (encode v ++ rest) = .ok (v, (encode v).length) := by
  have back := readGroups_groups rest 9 0 v.toNat rfl (by simpa using v.toNat_lt)
  rw [decode, encode, maxLength, back]
  show Except.ok (UInt64.ofNat v.toNat, _) = _
  rw [UInt64.ofNat_toNat]

/-- A varint takes at least one byte. -/
theorem length_encode_pos (v : UInt64) : 0 < (encode v).length := by
  rw [encode, maxLength, groups]
  split
  · exact Nat.one_pos
  · exact Nat.succ_pos _

/-! ## The fewest groups -/

/-- A number takes no more groups than it can be spelled in. -/
theorem length_groups_le : ∀ room n count : Nat, 0 < count → n < 128 ^ count →
    (groups room n).length ≤ count := by
  intro room
  induction room with
  | zero =>
    intro n count _ _
    exact Nat.zero_le _
  | succ room ih =>
    intro n count positive fits
    rw [groups]
    split
    · exact positive
    · next long =>
      obtain ⟨fewer, rfl⟩ : ∃ fewer, count = fewer + 1 := ⟨count - 1, by omega⟩
      -- the groups above the lowest spell a number of one digit fewer
      have rest : n / 128 < 128 ^ fewer := by
        rw [Nat.pow_succ] at fits
        exact Nat.div_lt_of_lt_mul (by omega)
      have more : 0 < fewer := by
        rcases Nat.eq_zero_or_pos fewer with rfl | more
        · omega
        · exact more
      exact Nat.succ_le_succ (ih (n / 128) fewer more rest)

theorem length_encode_le {v : UInt64} {count : Nat} (positive : 0 < count)
    (fits : v.toNat < 128 ^ count) : (encode v).length ≤ count :=
  length_groups_le _ _ _ positive fits

/-- The groups that were read spell a number that fits them. -/
theorem lt_of_readGroups : ∀ (bytes : List UInt8) (index n count : Nat),
    readGroups index bytes = .ok (n, count) → n < 128 ^ count := by
  intro bytes
  induction bytes with
  | nil =>
    intro index n count read
    cases read
  | cons b rest ih =>
    intro index n count read
    obtain ⟨-, -, ⟨last, rfl, rfl⟩ | ⟨-, high, fewer, deeper, rfl, rfl⟩⟩ :=
      readGroups_cons_eq_ok.mp read
    · exact last
    · have below := ih _ _ _ deeper
      rw [Nat.pow_succ]
      omega

end Varint

namespace BigEndian

/-! ## Words of a fixed width -/

theorem decode_concat (bytes : List UInt8) (b : UInt8) :
    decode (bytes ++ [b]) = decode bytes * 256 + b.toNat := by
  rw [decode, decode, List.foldl_append]
  rfl

/-- What does not fit the width is cut off at the top. -/
theorem decode_encode (width : Nat) : ∀ n : Nat, decode (encode width n) = n % 256 ^ width := by
  induction width with
  | zero =>
    intro n
    rw [Nat.pow_zero, Nat.mod_one]
    rfl
  | succ width ih =>
    intro n
    have power : 256 ^ (width + 1) = 256 * 256 ^ width := by rw [Nat.pow_succ, Nat.mul_comm]
    rw [encode, decode_concat, ih, UInt8.toNat_ofNat', power, Nat.mod_mul]
    omega

theorem decode_encode_of_lt {width n : Nat} (fits : n < 256 ^ width) :
    decode (encode width n) = n := by
  rw [decode_encode, Nat.mod_eq_of_lt fits]

theorem decode_encode32 (v : UInt32) : UInt32.ofNat (decode (encode32 v)) = v := by
  have fits : v.toNat < 256 ^ 4 := v.toNat_lt
  rw [encode32, decode_encode_of_lt fits, UInt32.ofNat_toNat]

theorem decode_encode64 (v : UInt64) : UInt64.ofNat (decode (encode64 v)) = v := by
  have fits : v.toNat < 256 ^ 8 := v.toNat_lt
  rw [encode64, decode_encode_of_lt fits, UInt64.ofNat_toNat]

/-- A number below the range of the sign is the word that stands for it. -/
theorem encode_ofNat {n : Nat} (fits : n < 2 ^ 31) : encode 4 n = encode32 (UInt32.ofNat n) := by
  rw [encode32, UInt32.toNat_ofNat_of_lt' (by rw [UInt32.size]; omega)]

theorem toInt_ofNat {n : Nat} (fits : n < 2 ^ 31) : (UInt32.ofNat n).toInt32.toInt = n := by
  show (Int32.ofNat n).toInt = n
  exact Int32.toInt_ofNat_of_lt fits

/-! ## Signed numbers of any size -/

/-- The first byte of a word holds its highest eight bits. -/
theorem head?_encode (width : Nat) : ∀ n : Nat,
    (encode (width + 1) n).head? = some (UInt8.ofNat (n / 256 ^ width)) := by
  induction width with
  | zero =>
    intro n
    rw [Nat.pow_zero, Nat.div_one]
    rfl
  | succ width ih =>
    intro n
    rw [encode, List.head?_append, ih, Nat.pow_succ, Nat.mul_comm (256 ^ width),
      ← Nat.div_div_eq_div_mul]
    rfl

/-- The width of a signed number leaves room for its sign. -/
theorem signedWidth_spec (n : Int) : ∃ width : Nat, signedWidth n = width + 1 ∧
    -(128 * 256 ^ width : Nat) ≤ n ∧ n < (128 * 256 ^ width : Nat) := by
  let magnitude : Nat := if 0 ≤ n then n.toNat else (-n - 1).toNat
  let bits : Nat := if magnitude = 0 then 0 else magnitude.log2 + 1
  refine ⟨bits / 8, rfl, ?_⟩
  have inBits : magnitude < 2 ^ bits := by
    by_cases zero : magnitude = 0
    · rw [zero]
      exact Nat.two_pow_pos _
    · have step : bits = magnitude.log2 + 1 := if_neg zero
      rw [step]
      exact Nat.lt_log2_self
  -- the bytes that the bits begin leave one bit more, which is the sign's
  have rounded : 2 ^ bits ≤ 128 * 256 ^ (bits / 8) := by
    have power : 128 * 256 ^ (bits / 8) = 2 ^ (7 + 8 * (bits / 8)) := by
      rw [Nat.pow_add, Nat.pow_mul]
    rw [power]
    exact Nat.pow_le_pow_right (by decide) (by omega)
  have bound : magnitude < 128 * 256 ^ (bits / 8) := Nat.lt_of_lt_of_le inBits rounded
  -- a negative number is one less below zero than its magnitude says
  by_cases sign : 0 ≤ n
  · have whole : magnitude = n.toNat := if_pos sign
    omega
  · have whole : magnitude = (-n - 1).toNat := if_neg sign
    omega

/-- A signed number is read back from the fewest bytes it is written in. -/
theorem decodeSigned_encodeSigned (n : Int) : decodeSigned (encodeSigned n) = n := by
  obtain ⟨width, eq, low, high⟩ := signedWidth_spec n
  have power : 256 ^ (width + 1) = 256 * 256 ^ width := by rw [Nat.pow_succ, Nat.mul_comm]
  have positive : 0 < 256 ^ width := Nat.pow_pos (by decide)
  rw [encodeSigned, eq]
  show decodeSigned (encode (width + 1) (n % ((256 ^ (width + 1) : Nat) : Int)).toNat) = n
  rw [power]
  generalize leading : 256 ^ width = unit at *
  -- the word is `n` itself, or `n` moved up by the whole range
  have word : (n % ((256 * unit : Nat) : Int)).toNat
      = if 0 ≤ n then n else n + (256 * unit : Nat) := by
    split
    · rw [Int.emod_eq_of_lt (by omega) (by omega)]
      omega
    · rw [← Int.add_emod_right, Int.emod_eq_of_lt (by omega) (by omega)]
      omega
  generalize (n % ((256 * unit : Nat) : Int)).toNat = m at word
  have bounded : m < 256 * unit := by split at word <;> omega
  have whole : decode (encode (width + 1) m) = m :=
    decode_encode_of_lt (by rw [power]; exact bounded)
  have first : (UInt8.ofNat (m / unit)).toNat = m / unit := by
    have top : m / unit < 256 := (Nat.div_lt_iff_lt_mul positive).mpr bounded
    rw [UInt8.toNat_ofNat', Nat.mod_eq_of_lt top]
  -- the first byte shows the sign of the whole word
  have sign : m / unit < 128 ↔ m < 128 * unit := Nat.div_lt_iff_lt_mul positive
  simp only [decodeSigned, head?_encode, leading, whole, length_encode, Nat.pow_eq, power]
  by_cases natural : 0 ≤ n
  · rw [if_pos natural] at word
    rw [if_pos (by rw [first, sign]; omega)]
    exact word
  · rw [if_neg natural] at word
    rw [if_neg (by rw [first, sign]; omega)]
    omega

/-! ## The fewest bytes -/

/-- The first byte counts for as many bytes as stand behind it. -/
theorem decode_cons (b : UInt8) (rest : List UInt8) :
    decode (b :: rest) = b.toNat * 256 ^ rest.length + decode rest := by
  -- the fold has a number already when it comes to the rest, so that varies
  have general : ∀ (rest : List UInt8) (high : Nat),
      rest.foldl (fun n b => n * 256 + b.toNat) high = high * 256 ^ rest.length + decode rest := by
    intro rest
    induction rest with
    | nil =>
      intro high
      show high = high * 256 ^ 0 + 0
      omega
    | cons b rest ih =>
      intro high
      rw [decode, List.foldl_cons, List.foldl_cons, ih, ih, List.length_cons, Nat.pow_succ,
        Nat.zero_mul, Nat.zero_add, Nat.add_mul, Nat.mul_assoc, Nat.mul_comm 256, Nat.add_assoc]
  rw [decode, List.foldl_cons, general, Nat.zero_mul, Nat.zero_add]

/-- Bytes spell a number below the first one that needs more of them. -/
theorem decode_lt (bytes : List UInt8) : decode bytes < 256 ^ bytes.length := by
  induction bytes with
  | nil => exact Nat.one_pos
  | cons b rest ih =>
    have digit := b.toNat_lt
    rw [decode_cons, List.length_cons, Nat.pow_succ]
    have top : b.toNat * 256 ^ rest.length ≤ 255 * 256 ^ rest.length :=
      Nat.mul_le_mul_right _ (by omega)
    omega

/-- A signed number takes no more bytes than have room for it. -/
theorem signedWidth_le {n : Int} {width : Nat} (low : -(128 * 256 ^ width : Nat) ≤ n)
    (high : n < (128 * 256 ^ width : Nat)) : signedWidth n ≤ width + 1 := by
  -- for a negative number it is the complement whose bits count
  let magnitude : Nat := if 0 ≤ n then n.toNat else (-n - 1).toNat
  show (if magnitude = 0 then 0 else magnitude.log2 + 1) / 8 + 1 ≤ width + 1
  have bound : magnitude < 128 * 256 ^ width := by
    by_cases sign : 0 ≤ n
    · have whole : magnitude = n.toNat := if_pos sign
      omega
    · have whole : magnitude = (-n - 1).toNat := if_neg sign
      omega
  -- a bound that is a power of two bounds the number of bits
  have power : 128 * 256 ^ width = 2 ^ (7 + 8 * width) := by
    rw [Nat.pow_add, Nat.pow_mul]
  rw [power] at bound
  split
  · omega
  · next positive =>
    have bits : magnitude.log2 < 7 + 8 * width := (Nat.log2_lt positive).mpr bound
    omega

/-- However a signed number was padded, it takes no more bytes when it is written again; and no
bytes at all, which are zero, become one. -/
theorem length_encodeSigned_decodeSigned (bytes : List UInt8) :
    (encodeSigned (decodeSigned bytes)).length ≤ max 1 bytes.length := by
  rw [encodeSigned, length_encode]
  cases bytes with
  | nil => decide
  | cons b rest =>
    have below := decode_lt rest
    have digit := b.toNat_lt
    rw [List.length_cons, Nat.max_eq_right (by omega)]
    have positive : 0 < 256 ^ rest.length := Nat.pow_pos (by decide)
    have power : Nat.pow 256 (rest.length + 1) = 256 * 256 ^ rest.length := by
      rw [Nat.pow_eq, Nat.pow_succ, Nat.mul_comm]
    rw [decodeSigned, List.head?_cons]
    dsimp only
    rw [decode_cons, List.length_cons, power]
    -- the first bit tells which half of the range it is, and either half fits the bytes
    split
    · next plus =>
      have top : b.toNat * 256 ^ rest.length ≤ 127 * 256 ^ rest.length :=
        Nat.mul_le_mul_right _ (by omega)
      exact signedWidth_le (by omega) (by omega)
    · next minus =>
      have top : b.toNat * 256 ^ rest.length ≤ 255 * 256 ^ rest.length :=
        Nat.mul_le_mul_right _ (by omega)
      have bottom : 128 * 256 ^ rest.length ≤ b.toNat * 256 ^ rest.length :=
        Nat.mul_le_mul_right _ (by omega)
      exact signedWidth_le (by omega) (by omega)

end BigEndian

/-! ## Text -/

/-- A string is read back from its bytes. -/
theorem Utf8.decode_encode (text : String) : Utf8.decode (Utf8.encode text) = .ok text := by
  have bytes : (⟨(Utf8.encode text).toArray⟩ : ByteArray) = text.toUTF8 := by
    rw [Utf8.encode, Array.toArray_toList]
  have back : String.fromUTF8? text.toUTF8 = some text := by
    simp only [String.fromUTF8?, String.toUTF8_eq_toByteArray, dif_pos text.isValidUTF8]
    rfl
  rw [Utf8.decode, bytes, back]

/-- A string that was read has the bytes it was read from. -/
theorem Utf8.encode_of_decode {bytes : List UInt8} {text : String}
    (h : Utf8.decode bytes = .ok text) : Utf8.encode text = bytes := by
  rw [Utf8.decode] at h
  cases read : String.fromUTF8? ⟨bytes.toArray⟩ with
  | none =>
    rw [read] at h
    cases h
  | some made =>
    rw [read] at h
    cases h
    rw [String.fromUTF8?] at read
    split at read
    · cases read
      rfl
    · cases read

/-- A word that fits 16 bits comes back from them. -/
theorem Signed.toInt64_toInt16 {v : Int64} (fits : Fits16 v.toInt) : v.toInt16.toInt64 = v := by
  obtain ⟨low, high⟩ := fits
  refine Int64.toInt_inj.mp ?_
  rw [Int16.toInt_toInt64, Int64.toInt_toInt16]
  exact Int.bmod_eq_of_le (by omega) (by omega)

/-- Only the empty string has no bytes. -/
theorem Utf8.encode_eq_nil {text : String} (h : Utf8.encode text = []) : text = "" := by
  have back := Utf8.decode_encode text
  rw [h, ← show Utf8.encode "" = [] from rfl, Utf8.decode_encode ""] at back
  exact (Except.ok.inj back).symm

end DocumentCodec
