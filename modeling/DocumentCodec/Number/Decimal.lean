/-!
# Decimal numbers

A decimal is an unscaled integer and a scale: `unscaled * 10 ^ (-scale)`.  The scale is kept as it
was given, so `1.0` and `1.00` are different decimals of one value.

`sameValue` compares values without ever forming a power of ten larger than the numbers at hand:
with the scales apart by `d`, the coarser unscaled part has to be multiplied by `10 ^ d`, and when
`d` exceeds the bit length of the finer one the product cannot be equal to it unless both are zero.
-/

namespace DocumentCodec

/-- The number `unscaled * 10 ^ (-scale)`. -/
structure Decimal where
  unscaled : Int
  scale : Int64
deriving DecidableEq, Repr

namespace Decimal

/-- Whether `fine = coarse * 10 ^ apart`. -/
def sameShifted (fine coarse : Int) (apart : Nat) : Bool :=
  if coarse = 0 then fine = 0
  else apart ≤ fine.natAbs.log2 && fine == coarse * (Nat.pow 10 apart : Nat)

/-- Whether two decimals are one number, whatever their scales. -/
def sameValue (a b : Decimal) : Bool :=
  let apart := a.scale.toInt - b.scale.toInt
  if 0 ≤ apart then sameShifted a.unscaled b.unscaled apart.toNat
  else sameShifted b.unscaled a.unscaled (-apart).toNat

/-- A power of ten outgrows every number whose bit length it exceeds. -/
theorem lt_pow_of_log2_lt {n apart : Nat} (h : n.log2 < apart) :
    n < Nat.pow 10 apart := by
  rcases Nat.eq_zero_or_pos n with rfl | pos
  · exact Nat.pow_pos (by omega)
  · have small : n < 2 ^ apart := (Nat.log2_lt (by omega)).mp h
    exact Nat.lt_of_lt_of_le small (Nat.pow_le_pow_left (by omega) apart)

/-- The short cut loses nothing: the comparison decides the equation. -/
theorem sameShifted_iff (fine coarse : Int) (apart : Nat) :
    sameShifted fine coarse apart = true ↔ fine = coarse * (Nat.pow 10 apart : Nat) := by
  unfold sameShifted
  by_cases zero : coarse = 0
  · simp [zero]
  · rw [if_neg zero, Bool.and_eq_true, beq_iff_eq, decide_eq_true_eq]
    refine ⟨fun h => h.2, fun h => ⟨?_, h⟩⟩
    apply Nat.le_of_not_lt
    intro big
    have small := lt_pow_of_log2_lt big
    have size : fine.natAbs = coarse.natAbs * Nat.pow 10 apart := by
      rw [h, Int.natAbs_mul, Int.natAbs_natCast]
    have positive : 0 < coarse.natAbs := Int.natAbs_pos.mpr zero
    have := Nat.le_mul_of_pos_left (Nat.pow 10 apart) positive
    omega

end Decimal
end DocumentCodec
