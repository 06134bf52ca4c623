/-!
# Signed words

The ranges of the signed words of 16, 32 and 64 bits, and the nearest 64-bit word to an integer.
-/

namespace DocumentCodec.Signed

/-- The integers that a signed 16-bit word can hold. -/
abbrev Fits16 (n : Int) : Prop := -32768 ≤ n ∧ n ≤ 32767

/-- The integers that a signed 32-bit word can hold. -/
abbrev Fits32 (n : Int) : Prop := -2147483648 ≤ n ∧ n ≤ 2147483647

/-- The integers that a signed 64-bit word can hold. -/
abbrev Fits64 (n : Int) : Prop := -9223372036854775808 ≤ n ∧ n ≤ 9223372036854775807

/-- The signed 64-bit word nearest to `n`. -/
def saturate (n : Int) : Int64 :=
  Int64.ofInt (max (-9223372036854775808) (min n 9223372036854775807))

/-! ## Small lemmas -/

theorem fits64_toInt (v : Int64) : Fits64 v.toInt :=
  ⟨Int64.le_toInt v, Int.le_of_lt_add_one (Int64.toInt_lt v)⟩

/-- A word stands for the integer it was made from, when that one fits. -/
theorem toInt_ofInt {n : Int} (h : Fits64 n) : (Int64.ofInt n).toInt = n := by
  have low : -2 ^ 63 ≤ n := h.1
  have high : n < 2 ^ 63 := Int.lt_add_one_of_le h.2
  exact Int64.toInt_ofInt_of_le low high

theorem toInt_saturate (n : Int) :
    (saturate n).toInt = max (-9223372036854775808) (min n 9223372036854775807) :=
  toInt_ofInt ⟨by omega, by omega⟩

/-- A word that fits 32 bits comes back from them. -/
theorem toInt64_toInt32 {v : Int64} (h : Fits32 v.toInt) : v.toInt32.toInt64 = v := by
  have low := h.1
  have high := h.2
  refine Int64.toInt_inj.mp ?_
  rw [Int32.toInt_toInt64, Int64.toInt_toInt32]
  exact Int.bmod_eq_of_le (by omega) (by omega)

end DocumentCodec.Signed
