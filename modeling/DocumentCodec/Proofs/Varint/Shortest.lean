import DocumentCodec.Proofs.Budget
import DocumentCodec.Proofs.Varint
/-!
# The shortest varint of a word

How many bytes a word takes is found in three ways that know nothing of each other: a loop shifts
groups out of the word into a buffer until no bit is left, a formula counts the bits behind the
zeros in front of the word, and the reader goes on until a byte asks for no more.  The three agree
because of one fact, `length_le_iff`: the bytes are no more than `count` just if the word is below
`128 ^ count`.  Whatever is read in `count` bytes is below that, so no spelling is shorter than the
written one.

The loop is given a buffer with room and not a list to add to, and it takes one place of it for each
group.  So the induction is on the room, and it needs no bound on the number of groups.
-/

namespace DocumentCodec.Varint

variable {v : UInt64}

/-! ## How many bytes a word takes -/

theorem length_pos (v : UInt64) : 0 < length v := Nat.succ_pos _

/-- A word takes no more bytes than have room for its digits. -/
theorem length_le_iff {count : Nat} (positive : 0 < count) :
    length v ≤ count ↔ v.toNat < 128 ^ count := by
  have bits : 128 ^ count = 2 ^ (7 * count) := (Nat.pow_mul 2 7 count).symm
  rw [length, bits]
  by_cases zero : v.toNat = 0
  · rw [zero]
    exact iff_of_true positive (Nat.two_pow_pos _)
  · rw [← Nat.log2_lt zero]
    omega

theorem length_le_ten (v : UInt64) : length v ≤ 10 := by
  have word : v.toNat < 128 ^ 10 := Nat.lt_of_lt_of_le v.toNat_lt (by decide)
  exact (length_le_iff (by decide)).mpr word

/-- Whatever spells a word has room for its digits. -/
theorem length_le_of_decode {bytes : List UInt8} {count : Nat}
    (read : decode bytes = .ok (v, count)) : length v ≤ count := by
  obtain ⟨positive, fits⟩ := spelled_of_decode read
  exact (length_le_iff positive).mpr fits

/-- As many bytes are written as were counted. -/
theorem length_encode (v : UInt64) : (encode v).length = length v := by
  refine Nat.le_antisymm ?_ ?_
  · exact length_encode_le (length_pos v) ((length_le_iff (length_pos v)).mp (Nat.le_refl _))
  · exact length_le_of_decode (decode_encode_append v [])

/-- Only a word with its highest bit set takes all ten bytes. -/
theorem length_eq_ten_iff : length v = 10 ↔ 2 ^ 63 ≤ v.toNat := by
  have nine : length v ≤ 9 ↔ v.toNat < 2 ^ 63 := length_le_iff (by decide)
  have ten := length_le_ten v
  omega

/-! ## The zeros in front

How many bits a word has, and from that how many bytes, by counting the zeros in front of it. -/

/-- The bits of a word behind the zeros in front of it. -/
def bitCount (v : UInt64) : Nat := 64 - v.toBitVec.clz.toNat

/-- A byte for each seven bits begun, and one for a word without bits. -/
def bytesOfBits (v : UInt64) : Nat := max 1 ((bitCount v + 6) / 7)

/-- The number of bits is one more than the place of the highest one: that is what the leading zeros
leave. -/
theorem bitCount_of_ne_zero (some : v.toNat ≠ 0) : bitCount v = v.toNat.log2 + 1 := by
  have bits : v.toBitVec ≠ 0#64 := fun none => some (congrArg BitVec.toNat none)
  have below : v.toNat < 2 ^ (64 - v.toBitVec.clz.toNat) := BitVec.toNat_lt_two_pow_sub_clz
  have above : 2 ^ (64 - 1 - v.toBitVec.clz.toNat) ≤ v.toNat :=
    BitVec.two_pow_sub_clz_le_toNat_of_ne_zero (by decide) bits
  have inside : v.toBitVec.clz.toNat < 64 := BitVec.clz_lt_iff_ne_zero.mpr bits
  have highest : 64 - v.toBitVec.clz.toNat = 64 - 1 - v.toBitVec.clz.toNat + 1 := by omega
  rw [highest] at below
  rw [bitCount, (Nat.log2_eq_iff some).mpr ⟨above, below⟩, ← highest]

/-- The zeros in front tell how many bytes a word takes. -/
theorem bytesOfBits_eq (v : UInt64) : bytesOfBits v = length v := by
  rw [bytesOfBits, length]
  by_cases zero : v.toNat = 0
  · obtain rfl : v = 0 := UInt64.toNat_inj.mp zero
    decide
  · rw [bitCount_of_ne_zero zero]
    omega

/-! ## Shifting groups into a buffer

The loop fills one place after the other until no bit is left, and how many places it filled is how
many groups there are. -/

/-- Shifts the groups of `word` out of it and puts one after the other into the places of a buffer,
with the high bit set where bits are left: the buffer and the number of places that were taken.
There is no answer if the buffer has too few. -/
def putGroups : (places : List UInt8) → (word : UInt64) → Option (List UInt8 × Nat)
  | [], _ => none
  | _ :: places, word =>
    let group := word.toUInt8 &&& 0x7F
    let left := word >>> 7
    if left = 0 then some (group :: places, 1)
    else (putGroups places left).map fun (bytes, count) => ((group ||| 0x80) :: bytes, count + 1)

theorem toNat_group (v : UInt64) : (v.toUInt8 &&& 0x7F).toNat = v.toNat % 128 := by
  rw [← UInt8.toNat_toUInt64, toNat_payload, UInt64.toNat_toUInt8]
  omega

/-- The continuation bit is added to a group. -/
theorem toNat_continued (v : UInt64) :
    ((v.toUInt8 &&& 0x7F) ||| 0x80).toNat = v.toNat % 128 + 128 := by
  have group : v.toNat % 128 < 2 ^ 7 := Nat.mod_lt _ (by decide)
  have joined : 2 ^ 7 * 1 + v.toNat % 128 = 2 ^ 7 * 1 ||| v.toNat % 128 :=
    Nat.two_pow_add_eq_or_of_lt group 1
  rw [UInt8.toNat_or, toNat_group, Nat.or_comm, Nat.add_comm]
  exact joined.symm

theorem toNat_left (v : UInt64) : (v >>> 7).toNat = v.toNat / 128 := by
  rw [UInt64.toNat_shiftRight]
  exact Nat.shiftRight_eq_div_pow v.toNat 7

theorem left_eq_zero_iff (v : UInt64) : v >>> 7 = 0 ↔ v.toNat < 128 := by
  have none : (v >>> 7).toNat = 0 ↔ v >>> 7 = 0 := UInt64.toNat_inj (b := 0)
  rw [← none, toNat_left]
  omega

section

variable {room n : Nat}

theorem groups_of_lt (last : n < 128) : groups (room + 1) n = [UInt8.ofNat n] := if_pos last

theorem groups_of_le (more : 128 ≤ n) :
    groups (room + 1) n = UInt8.ofNat (n % 128 + 128) :: groups room (n / 128) :=
  if_neg (Nat.not_lt.mpr more)

end

/-- Places beyond those that a number needs change nothing. -/
theorem groups_succ : ∀ room n : Nat, n < 128 ^ (room + 1) →
    groups (room + 2) n = groups (room + 1) n := by
  intro room
  induction room with
  | zero =>
    intro n last
    rw [groups_of_lt last, groups_of_lt last]
  | succ room ih =>
    intro n fits
    rcases Nat.lt_or_ge n 128 with last | more
    · rw [groups_of_lt last, groups_of_lt last]
    · -- another group follows, and what is left needs a place less
      have rest : n / 128 < 128 ^ (room + 1) := by
        rw [Nat.pow_succ] at fits
        exact Nat.div_lt_of_lt_mul (by omega)
      rw [groups_of_le more, groups_of_le more, ih (n / 128) rest]

/-- A number of seven bits is one byte. -/
theorem encode_of_lt (last : v.toNat < 128) : encode v = [v.toUInt8 &&& 0x7F] := by
  have byte : UInt8.ofNat v.toNat = v.toUInt8 &&& 0x7F := by
    refine UInt8.toNat_inj.mp ?_
    rw [toNat_group, UInt8.toNat_ofNat']
    omega
  rw [encode, maxLength, groups_of_lt last, byte]

/-- Behind the first group stands what is left of the word. -/
theorem encode_of_le (more : 128 ≤ v.toNat) :
    encode v = ((v.toUInt8 &&& 0x7F) ||| 0x80) :: encode (v >>> 7) := by
  have byte : UInt8.ofNat (v.toNat % 128 + 128) = (v.toUInt8 &&& 0x7F) ||| 0x80 := by
    refine UInt8.toNat_inj.mp ?_
    rw [toNat_continued, UInt8.toNat_ofNat']
    omega
  have rest : v.toNat / 128 < 128 ^ (8 + 1) := by
    have word := v.toNat_lt
    omega
  rw [encode, encode, maxLength, groups_of_le more, byte, toNat_left, groups_succ 8 _ rest]

/-- A buffer with room for the varint of a word takes it into its first places and keeps the others;
a shorter one has too few. -/
theorem putGroups_eq (places : List UInt8) : ∀ v : UInt64, putGroups places v
    = if length v ≤ places.length then some (encode v ++ places.drop (length v), length v)
      else none := by
  induction places with
  | nil =>
    intro v
    have some := length_pos v
    rw [putGroups, if_neg (by rw [List.length_nil]; omega)]
  | cons place places ih =>
    intro v
    rw [putGroups, List.length_cons]
    rcases Nat.lt_or_ge v.toNat 128 with last | more
    · -- the last group takes the place at hand
      have one : length v = 1 := by rw [← length_encode, encode_of_lt last, List.length_singleton]
      rw [if_pos ((left_eq_zero_iff v).mpr last), one, if_pos (Nat.le_add_left 1 _), encode_of_lt last]
      rfl
    · -- else the place takes the low seven bits, and the rest of the word has the rest of the room
      have longer : length v = length (v >>> 7) + 1 := by
        rw [← length_encode, encode_of_le more, List.length_cons, length_encode]
      have goesOn : ¬v >>> 7 = 0 := (left_eq_zero_iff v).not.mpr (Nat.not_lt.mpr more)
      rw [if_neg goesOn, ih, longer, encode_of_le more]
      by_cases enough : length (v >>> 7) ≤ places.length
      · rw [if_pos enough, if_pos (Nat.add_le_add_right enough 1)]
        rfl
      · rw [if_neg enough, if_neg (fun fits => enough (Nat.le_of_add_le_add_right fits))]
        rfl

/-! ## The headline -/

/-- **A word is written in as few bytes as it can be read from**, one to ten of them; the varint is
read back from the front of whatever bytes it begins.  The number of bytes is what the zeros in
front of the word say, and what the loop says that shifts the groups out of it into a buffer.  A
signed word is written and read back alike, and the negative ones are those that take all ten
bytes. -/
theorem encode_shortest (v : UInt64) (w : Int64) (tail : List UInt8) :
    ((encode v).length = length v ∧ 1 ≤ length v ∧ length v ≤ 10) ∧
    decode (encode v ++ tail) = .ok (v, length v) ∧
    (¬∃ bytes count, decode bytes = .ok (v, count) ∧ count < length v) ∧
    bytesOfBits v = length v ∧
    (∀ buffer, putGroups buffer v
      = if length v ≤ buffer.length then some (encode v ++ buffer.drop (length v), length v)
        else none) ∧
    (encodeSigned w).length = lengthSigned w ∧
    decodeSigned (encodeSigned w ++ tail) = .ok (w, lengthSigned w) ∧
    (lengthSigned w = 10 ↔ w < 0) := by
  have back (v : UInt64) : decode (encode v ++ tail) = .ok (v, length v) := by
    rw [decode_encode_append, length_encode]
  refine ⟨⟨length_encode v, length_pos v, length_le_ten v⟩, back v, ?_, bytesOfBits_eq v,
    fun buffer => putGroups_eq buffer v, length_encode _, ?_, ?_⟩
  · rintro ⟨bytes, count, read, fewer⟩
    exact absurd (length_le_of_decode read) (Nat.not_le.mpr fewer)
  · rw [decodeSigned, encodeSigned, back]
    exact congrArg (fun v => Except.ok (v, lengthSigned w)) (Int64.toInt64_toUInt64 w)
  · -- the highest bit is the sign, and the tenth byte is there for that bit alone
    have sign : w.toInt < 0 ↔ 2 ^ 64 ≤ 2 * w.toUInt64.toNat := BitVec.toInt_neg_iff
    rw [lengthSigned, length_eq_ten_iff, Int64.lt_iff_toInt_lt]
    show _ ↔ w.toInt < 0
    rw [sign]
    omega

/-- The largest word of two groups, in a buffer with a place to spare, and in one that is too
short. -/
example : putGroups [9, 9, 9] 16383 = some ([0xFF, 0x7F, 9], 2) ∧ putGroups [9] 16383 = none :=
  ⟨rfl, rfl⟩

end DocumentCodec.Varint
