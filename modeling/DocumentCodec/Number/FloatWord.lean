/-!
# Floating-point words

Floating-point numbers are kept as their bit patterns, so that every NaN keeps its payload and
nothing is rounded on the way through.  What is needed of them beyond that is the comparison of
IEEE 754 (a NaN equals nothing, the two zeros are equal) and the exact step from single to double
precision, both of which are read off the three parts of a word: sign, exponent and fraction.
-/

namespace DocumentCodec

/-- The widths of the parts of a floating-point word: one sign bit, then the biased exponent,
then the fraction. -/
structure FloatFormat where
  exponentBits : Nat
  fractionBits : Nat

namespace FloatFormat

/-- Single precision, 32 bits. -/
def single : FloatFormat := ⟨8, 23⟩

/-- Double precision, 64 bits. -/
def double : FloatFormat := ⟨11, 52⟩

variable (format : FloatFormat) (word : Nat)

/-- The bits after the leading one. -/
def fraction : Nat := word % Nat.pow 2 format.fractionBits

/-- The biased exponent. -/
def exponent : Nat := word / Nat.pow 2 format.fractionBits % Nat.pow 2 format.exponentBits

/-- The sign bit is set. -/
def isNegative : Bool :=
  word / Nat.pow 2 (format.fractionBits + format.exponentBits) % 2 == 1

/-- The biased exponent of the infinities and of the NaNs. -/
def topExponent : Nat := Nat.pow 2 format.exponentBits - 1

/-- What is subtracted from a biased exponent. -/
def bias : Nat := Nat.pow 2 (format.exponentBits - 1) - 1

/-- The word is not a number. -/
def isNaN : Bool :=
  format.exponent word == format.topExponent && format.fraction word != 0

/-- The word is an infinity. -/
def isInfinite : Bool :=
  format.exponent word == format.topExponent && format.fraction word == 0

/-- The word is one of the two zeros. -/
def isZero : Bool := format.exponent word == 0 && format.fraction word == 0

/-- The integer `m` of a finite word's magnitude `m * 2 ^ q`. -/
def significand : Nat :=
  if format.exponent word = 0 then format.fraction word
  else Nat.pow 2 format.fractionBits + format.fraction word

/-- The power `q` of a finite word's magnitude `m * 2 ^ q`. -/
def power : Int :=
  (if format.exponent word = 0 then 1 else (format.exponent word : Int))
    - format.bias - format.fractionBits

/-- Equality of numbers: a NaN equals nothing, not even itself, and the zeros are equal. -/
def sameValue (a b : Nat) : Bool :=
  !format.isNaN a && !format.isNaN b && (a == b || (format.isZero a && format.isZero b))

end FloatFormat

namespace FloatWord

/-- Equality of single-precision numbers. -/
def sameSingle (a b : UInt32) : Bool := FloatFormat.single.sameValue a.toNat b.toNat

/-- Equality of double-precision numbers. -/
def sameDouble (a b : UInt64) : Bool := FloatFormat.double.sameValue a.toNat b.toNat

/-- The exponent and fraction of the double that equals a single.  Every single is a double: a
normal number moves to the wider exponent, a number below the normal range gains a leading one,
and a NaN keeps its payload and becomes quiet. -/
def widenedMagnitude (exponent fraction : Nat) : Nat :=
  if exponent = 255 then
    2047 * Nat.pow 2 52 +
      (if fraction = 0 then 0 else Nat.pow 2 51 + fraction % Nat.pow 2 22 * Nat.pow 2 29)
  else if exponent = 0 then
    if fraction = 0 then 0
    else
      let top := fraction.log2
      (top + 874) * Nat.pow 2 52 + (fraction - Nat.pow 2 top) * Nat.pow 2 (52 - top)
  else (exponent + 896) * Nat.pow 2 52 + fraction * Nat.pow 2 29

/-- The double that equals a single. -/
def widen (word : UInt32) : UInt64 :=
  let format := FloatFormat.single
  let magnitude := widenedMagnitude (format.exponent word.toNat) (format.fraction word.toNat)
  UInt64.ofNat (magnitude + if format.isNegative word.toNat then Nat.pow 2 63 else 0)

end FloatWord
end DocumentCodec
