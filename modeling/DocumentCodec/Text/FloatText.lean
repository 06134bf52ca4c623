import DocumentCodec.Number.Shortest
/-!
# Floating-point numbers as text

The shortest decimal of a number, laid out positionally with at least one digit on either side of
the point, or with an exponent when its leading digit lies outside a range of places.
-/

namespace DocumentCodec

/-- Which numbers are written without an exponent: those whose leading digit stands for a power of
ten from `least` to `most`. -/
structure FloatStyle where
  least : Int
  most : Int

namespace FloatStyle

variable (style : FloatStyle)

/-- Lays out `digits * 10 ^ exponent`. -/
def layOut (decimal : Shortest.Digits) : String :=
  let digits := (toString decimal.digits).toList
  let zeros (n : Int) : List Char := List.replicate n.toNat '0'
  let point := digits.length + decimal.exponent
  let leading := point - 1
  if leading < style.least ∨ style.most < leading then
    let rest := digits.drop 1
    String.ofList (digits.take 1 ++ (if rest.isEmpty then [] else '.' :: rest))
      ++ "e" ++ toString leading
  else if 0 ≤ decimal.exponent then
    String.ofList (digits ++ zeros decimal.exponent ++ ['.', '0'])
  else if 0 < point then
    String.ofList (digits.take point.toNat ++ '.' :: digits.drop point.toNat)
  else String.ofList ('0' :: '.' :: zeros (-point) ++ digits)

/-- The text of a floating-point word.  A NaN has no sign. -/
def text (format : FloatFormat) (word : Nat) : String :=
  if format.isNaN word then "NaN"
  else
    let magnitude :=
      if format.isInfinite word then "inf"
      else if format.isZero word then "0.0"
      else style.layOut (Shortest.ofWord format word)
    if format.isNegative word then "-" ++ magnitude else magnitude

end FloatStyle
end DocumentCodec
