import DocumentCodec.Varint
import Mathlib.Algebra.BigOperators.Ring.Finset
import Mathlib.Data.Nat.Bitwise
import Mathlib.Tactic.Ring
/-!
# Which bytes a varint is

A varint is one to ten groups of seven bits that spell a 64-bit word to the base 128, lowest digit
first; the high bit of a byte says that another group follows.  `Spells` is that grammar, said of
the number and of the count of its bytes, and the reader takes just what it admits: padded spellings
with groups of zeros too, and no number with a bit above the word.

The reader adds up digits, which can lose no bit.  A loop over words can: it moves each group up to
its place and joins it to the bits so far.  `joinGroups` is that loop, and it gives the same
answers, because the groups before a place fill the bits below it and nothing else, and the check of
the tenth group leaves it the one bit that there is room for.

Both inductions are on the bytes.  They carry the places `left` behind the one at hand, of which
there are ten: a number that begins `left` places before the last one has room for `2 * 128 ^ left`.
-/

namespace DocumentCodec.Varint

/-! ## The grammar

A spelling is a sequence of groups in which every byte but the last has its highest bit set.
Padding is allowed, for groups above the first may be zero. -/

/-- The first `count` bytes spell `n`: there is one at least, all but the last ask for another
group, and the groups are the digits of `n` to the base 128, lowest first. -/
structure Spells (bytes : List UInt8) (n count : Nat) : Prop where
  positive : 1 ≤ count
  inside : count ≤ bytes.length
  goesOn : ∀ i, i + 1 < count → 128 ≤ (bytes.getD i 0).toNat
  ends : (bytes.getD (count - 1) 0).toNat < 128
  number : ∑ i ∈ Finset.range count, (bytes.getD i 0).toNat % 128 * 128 ^ i = n

namespace Spells

variable {b : UInt8} {rest : List UInt8} {n high count : Nat}

/-- A byte without the continuation bit spells itself. -/
theorem last (ends : b.toNat < 128) : Spells (b :: rest) b.toNat 1 where
  positive := Nat.le_refl 1
  inside := Nat.le_add_left 1 rest.length
  goesOn i behind := absurd behind (by omega)
  ends := ends
  number := by
    rw [Finset.sum_range_one, List.getD_cons_zero, Nat.pow_zero, Nat.mul_one]
    exact Nat.mod_eq_of_lt ends

/-- A byte with the bit set is the lowest group of what is spelled behind it. -/
theorem cons (more : 128 ≤ b.toNat) (spelled : Spells rest high count) :
    Spells (b :: rest) (b.toNat % 128 + 128 * high) (count + 1) where
  positive := Nat.le_add_left 1 count
  inside := Nat.succ_le_succ spelled.inside
  goesOn i behind := by
    cases i with
    | zero => exact more
    | succ i => exact spelled.goesOn i (by omega)
  ends := by
    obtain ⟨fewer, rfl⟩ : ∃ fewer, count = fewer + 1 := ⟨count - 1, by have := spelled.positive; omega⟩
    -- the last byte is the last one of what is spelled behind
    exact spelled.ends
  number := by
    -- the sum without its first term is that of the rest, each place higher by one
    rw [Finset.sum_range_succ', ← spelled.number, Finset.mul_sum, Nat.add_comm]
    congr 1
    · rw [List.getD_cons_zero, Nat.pow_zero, Nat.mul_one]
    · refine Finset.sum_congr rfl fun i _ => ?_
      rw [List.getD_cons_succ, Nat.pow_succ]
      ring

/-- What is spelled is one group that is the last, or a group with others behind it. -/
theorem cons_iff : Spells (b :: rest) n count ↔
    (b.toNat < 128 ∧ n = b.toNat ∧ count = 1) ∨
    (128 ≤ b.toNat ∧ ∃ high fewer, Spells rest high fewer ∧
      n = b.toNat % 128 + 128 * high ∧ count = fewer + 1) := by
  constructor
  · intro spelled
    obtain ⟨positive, inside, goesOn, ends, rfl⟩ := spelled
    obtain ⟨fewer, rfl⟩ : ∃ fewer, count = fewer + 1 := ⟨count - 1, by omega⟩
    cases fewer with
    | zero =>
      have alone : Spells (b :: rest) b.toNat 1 := last ends
      exact Or.inl ⟨ends, alone.number, rfl⟩
    | succ fewer =>
      -- the groups behind the first spell a number of their own
      have behind : Spells rest (∑ i ∈ Finset.range (fewer + 1),
          (rest.getD i 0).toNat % 128 * 128 ^ i) (fewer + 1) :=
        ⟨Nat.le_add_left 1 fewer, Nat.le_of_succ_le_succ inside,
          fun i more => goesOn (i + 1) (Nat.succ_lt_succ more), ends, rfl⟩
      have more : 128 ≤ b.toNat := goesOn 0 (by omega)
      exact Or.inr ⟨more, _, _, behind, (behind.cons more).number, rfl⟩
  · rintro (⟨ends, rfl, rfl⟩ | ⟨more, high, fewer, behind, rfl, rfl⟩)
    · exact last ends
    · exact behind.cons more

end Spells

/-! ## Reading -/

/-- Behind the tenth place nothing is read. -/
theorem readGroups_maxLength (bytes : List UInt8) :
    ∃ cause, readGroups maxLength bytes = .error cause := by
  cases bytes with
  | nil => exact ⟨_, rfl⟩
  | cons b rest => exact ⟨_, if_pos rfl⟩

/-- The groups that are read from a place on are those that spell a number for which there is
room. -/
theorem readGroups_eq_ok_iff : ∀ (bytes : List UInt8) (left index n count : Nat), index + left = 9 →
    (readGroups index bytes = .ok (n, count) ↔
      Spells bytes n count ∧ count ≤ left + 1 ∧ n < 2 * 128 ^ left) := by
  intro bytes
  induction bytes with
  | nil =>
    intro left index n count place
    refine iff_of_false (fun read => by cases read) fun ⟨spelled, _⟩ => ?_
    have none := Nat.le_trans spelled.positive spelled.inside
    exact absurd none (Nat.not_succ_le_zero 0)
  | cons b rest ih =>
    intro left index n count place
    rw [Spells.cons_iff, readGroups_cons_eq_ok, maxLength]
    constructor
    · rintro ⟨-, narrow, ⟨ends, rfl, rfl⟩ | ⟨more, high, fewer, deeper, rfl, rfl⟩⟩
      · refine ⟨Or.inl ⟨ends, rfl, rfl⟩, by omega, ?_⟩
        cases left with
        | zero => omega
        | succ left =>
          have some : 0 < 128 ^ left := Nat.pow_pos (by decide)
          rw [Nat.pow_succ]
          omega
      · cases left with
        | zero =>
          obtain rfl : index = 9 := place
          obtain ⟨cause, refused⟩ := readGroups_maxLength rest
          cases refused.symm.trans deeper
        | succ left =>
          obtain ⟨behind, few, fits⟩ := (ih left (index + 1) high fewer (by omega)).mp deeper
          refine ⟨Or.inr ⟨more, high, fewer, behind, rfl, rfl⟩, by omega, ?_⟩
          rw [Nat.pow_succ]
          omega
    · rintro ⟨⟨ends, rfl, rfl⟩ | ⟨more, high, fewer, behind, rfl, rfl⟩, few, fits⟩
      · -- the tenth place has room for one bit
        refine ⟨by omega, ?_, Or.inl ⟨ends, rfl, rfl⟩⟩
        rintro ⟨last, wide⟩
        obtain rfl : left = 0 := by omega
        omega
      · have positive := behind.positive
        obtain ⟨left, rfl⟩ : ∃ fewer, left = fewer + 1 := ⟨left - 1, by omega⟩
        have deeper := (ih left (index + 1) high fewer (by omega)).mpr
          ⟨behind, by omega, by rw [Nat.pow_succ] at fits; omega⟩
        exact ⟨by omega, by omega, Or.inr ⟨more, high, fewer, deeper, rfl, rfl⟩⟩

/-! ## Joining words

Each group is moved to its own place and the bits below it are already there, so joining is adding
and no bit is lost to another. -/

/-- Reads the groups from place `index` on and joins each to the bits of `word`, moved up by seven
for every place before its own; answers with the word and the number of bytes up to there. -/
def joinGroups (index : Nat) (word : UInt64) : List UInt8 → Except VarintError (UInt64 × Nat)
  | [] => .error (if index = 0 then .empty else .truncated index)
  | b :: rest =>
    if index = maxLength then .error .tooLong
    else
      let payload := (b &&& 0x7F).toUInt64
      if index = maxLength - 1 ∧ 1 < payload then .error .overflow
      else
        let joined := word ||| payload <<< UInt64.ofNat (index * 7)
        if b &&& 0x80 = 0 then .ok (joined, index + 1)
        else joinGroups (index + 1) joined rest

/-- The seven low bits of a byte. -/
theorem toNat_payload (b : UInt8) : (b &&& 0x7F).toUInt64.toNat = b.toNat % 128 := by
  rw [UInt8.toNat_toUInt64, UInt8.toNat_and]
  exact Nat.and_two_pow_sub_one_eq_mod b.toNat 7

/-- The high bit of a byte. -/
theorem and_continuation_eq_zero_iff (b : UInt8) : b &&& 0x80 = 0 ↔ b.toNat < 128 := by
  have byte := b.toNat_lt
  have bit : b.toNat &&& 128 = (b.toNat.testBit 7).toNat * 2 ^ 7 := Nat.and_two_pow b.toNat 7
  have same : (b &&& 0x80).toNat = b.toNat &&& 128 := UInt8.toNat_and b 0x80
  rw [← UInt8.toNat_inj, same, bit, Nat.testBit_eq_decide_div_mod_eq]
  by_cases high : b.toNat / 2 ^ 7 % 2 = 1
  · rw [decide_eq_true high]
    exact iff_of_false (by decide) (by omega)
  · rw [decide_eq_false high]
    exact iff_of_true rfl (by omega)

/-- A group joined above the bits so far adds to them. -/
theorem toNat_joined {word payload : UInt64} {index : Nat} (place : index < 10)
    (below : word.toNat < 128 ^ index) (fits : payload.toNat * 128 ^ index < 2 ^ 64) :
    (word ||| payload <<< UInt64.ofNat (index * 7)).toNat
      = word.toNat + 128 ^ index * payload.toNat := by
  have unit : 2 ^ (index * 7) = 128 ^ index := by rw [Nat.mul_comm, Nat.pow_mul]
  have amount : (UInt64.ofNat (index * 7)).toNat = index * 7 :=
    UInt64.toNat_ofNat_of_lt' (by rw [UInt64.size]; omega)
  have inside : index * 7 < 64 := by omega
  rw [UInt64.toNat_or, UInt64.toNat_shiftLeft, amount, Nat.mod_eq_of_lt inside, Nat.shiftLeft_eq,
    unit, Nat.mod_eq_of_lt fits, Nat.or_comm, Nat.mul_comm, ← unit,
    ← Nat.two_pow_add_eq_or_of_lt (unit ▸ below), Nat.add_comm]

/-- From each place on the loop over words answers with the digits that are read there, above the
bits that it has. -/
theorem joinGroups_eq : ∀ (bytes : List UInt8) (left index : Nat) (word : UInt64), index + left = 9 →
    word.toNat < 128 ^ index → joinGroups index word bytes
      = (readGroups index bytes).map fun spelled =>
          (UInt64.ofNat (word.toNat + 128 ^ index * spelled.1), index + spelled.2) := by
  intro bytes
  induction bytes with
  | nil =>
    intro left index word place below
    rfl
  | cons b rest ih =>
    intro left index word place below
    have notLast : ¬index = maxLength := by rw [maxLength]; omega
    have payload := toNat_payload b
    have refused : (index = maxLength - 1 ∧ 1 < (b &&& 0x7F).toUInt64)
        ↔ (index = maxLength - 1 ∧ b.toNat % 128 > 1) := by
      rw [UInt64.lt_iff_toNat_lt, payload]
      rfl
    rw [joinGroups, readGroups, if_neg notLast, if_neg notLast]
    by_cases wide : index = maxLength - 1 ∧ b.toNat % 128 > 1
    · rw [if_pos wide, if_pos (refused.mpr wide)]
      rfl
    rw [if_neg wide, if_neg (refused.not.mpr wide)]
    -- seven bits up to the ninth place and one bit in the tenth leave the word none to lose
    have fits : b.toNat % 128 * 128 ^ index < 2 ^ 64 := by
      rw [maxLength] at wide
      cases left with
      | zero =>
        obtain rfl : index = 9 := place
        omega
      | succ left =>
        have small : 128 ^ index ≤ 128 ^ 8 := Nat.pow_le_pow_right (by decide) (by omega)
        have digit : b.toNat % 128 * 128 ^ index ≤ 127 * 128 ^ 8 :=
          Nat.mul_le_mul (by omega) small
        omega
    have joined := toNat_joined (by omega) below (payload ▸ fits)
    rw [payload] at joined
    by_cases ends : b.toNat < 128
    · rw [if_pos ends, if_pos ((and_continuation_eq_zero_iff b).mpr ends)]
      refine congrArg Except.ok (Prod.ext (UInt64.toNat_inj.mp ?_) rfl)
      have bound := joined ▸ UInt64.toNat_lt _
      rw [Nat.mod_eq_of_lt ends] at joined bound
      rw [joined, UInt64.toNat_ofNat_of_lt' bound]
    rw [if_neg ends, if_neg ((and_continuation_eq_zero_iff b).not.mpr ends)]
    cases left with
    | zero =>
      obtain rfl : index = 9 := place
      cases rest with
      | nil => rfl
      | cons b' rest => rfl
    | succ left =>
      have above : (word ||| (b &&& 0x7F).toUInt64 <<< UInt64.ofNat (index * 7)).toNat
          < 128 ^ (index + 1) := by
        have digit : 128 ^ index * (b.toNat % 128) ≤ 128 ^ index * 127 :=
          Nat.mul_le_mul_left _ (by omega)
        rw [joined, Nat.pow_succ]
        omega
      rw [ih left (index + 1) _ (by omega) above, joined]
      cases readGroups (index + 1) rest with
      | error cause => rfl
      | ok spelled =>
        obtain ⟨high, fewer⟩ := spelled
        refine congrArg Except.ok (Prod.ext (congrArg UInt64.ofNat ?_) ?_)
        · show _ = word.toNat + 128 ^ index * (b.toNat % 128 + 128 * high)
          rw [Nat.pow_succ]
          ring
        · show index + 1 + fewer = index + (fewer + 1)
          omega

/-! ## The headline -/

/-- **A varint is read just where the bytes begin with one**: one to ten bytes, all of them but the
last with the high bit set, whose groups spell the word that is read, no bit of which is lost.
Where no such number below `2 ^ 64` is spelled, the reader fails.  The loop that joins the groups of
a word by shifting them gives the same answers. -/
theorem decode_eq_ok_iff_spells (bytes : List UInt8) :
    (∀ (v : UInt64) (count : Nat),
      decode bytes = .ok (v, count) ↔ Spells bytes v.toNat count ∧ count ≤ 10) ∧
    ((∃ cause, decode bytes = .error cause) ↔
      ¬∃ n count, Spells bytes n count ∧ count ≤ 10 ∧ n < 2 ^ 64) ∧
    joinGroups 0 0 bytes = decode bytes := by
  have spelled (n count : Nat) := readGroups_eq_ok_iff bytes 9 0 n count rfl
  have joined := joinGroups_eq bytes 9 0 0 rfl (by decide)
  rw [decode]
  cases groups : readGroups 0 bytes with
  | error cause =>
    rw [groups] at spelled joined
    -- no number is read, so none is spelled that a reader would take
    have none (n count : Nat) : ¬(Spells bytes n count ∧ count ≤ 10 ∧ n < 2 ^ 64) :=
      fun found => by cases (spelled n count).mpr found
    refine ⟨fun v count => iff_of_false (fun read => by cases read) ?_, ?_, joined⟩
    · exact fun ⟨found, few⟩ => none _ _ ⟨found, few, v.toNat_lt⟩
    · exact iff_of_true ⟨cause, rfl⟩ fun ⟨n, count, found⟩ => none n count found
  | ok number =>
    obtain ⟨n, count⟩ := number
    rw [groups] at spelled joined
    -- one number is read, and as what is spelled fits a word, nothing is lost in it
    obtain ⟨found, few, fits⟩ := (spelled n count).mp rfl
    have word : (UInt64.ofNat n).toNat = n := UInt64.toNat_ofNat_of_lt' fits
    refine ⟨fun v count' => ⟨fun read => ?_, fun ⟨found', few'⟩ => ?_⟩, ?_, ?_⟩
    · cases read
      rw [word]
      exact ⟨found, few⟩
    · cases (spelled v.toNat count').mpr ⟨found', few', v.toNat_lt⟩
      exact congrArg (fun v => Except.ok (v, count)) UInt64.ofNat_toNat
    · exact iff_of_false (fun ⟨cause, read⟩ => by cases read)
        fun none => none ⟨n, count, found, few, fits⟩
    · rw [joined]
      refine congrArg Except.ok (Prod.ext (congrArg UInt64.ofNat ?_) (Nat.zero_add count))
      show 0 + 128 ^ 0 * n = n
      omega

/-- Groups of zeros may pad a number, up to the tenth place; a number with a bit above the word is
refused there, before the question whether the groups go on. -/
example : decode [0x81, 0x80, 0x80, 0x80, 0x80, 0x80, 0x80, 0x80, 0x80, 0x00, 7] = .ok (1, 10) ∧
    decode [0xFF, 0xFF, 0xFF, 0xFF, 0xFF, 0xFF, 0xFF, 0xFF, 0xFF, 0x82] = .error .overflow :=
  ⟨rfl, rfl⟩

end DocumentCodec.Varint
