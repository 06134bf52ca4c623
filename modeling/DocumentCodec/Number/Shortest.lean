import DocumentCodec.Number.FloatWord
/-!
# The fewest digits that read back

A finite floating-point number stands for the interval of reals that round to it: half a step to
either side, ends included exactly when its significand is even.  Its shortest decimal is the
point of that interval on the coarsest grid `10 ^ g` that meets the interval at all; of two such
points the nearer one, and the upper one when both are equally near.

If a point of a grid lies in the interval then so does one of the two neighbours of the number
itself on that grid, so only those are looked at.  Everything is exact arithmetic on `Nat`: the
number is `4 * m` in units of `2 ^ (q - 2)`, which makes half a step an integer.
-/

namespace DocumentCodec.Shortest

/-- The decimal `digits * 10 ^ exponent`. -/
structure Digits where
  digits : Nat
  exponent : Int
deriving DecidableEq, Repr

/-- A number with the interval of reals that round to it, in units of `2 ^ unit`. -/
structure Interval where
  low : Nat
  value : Nat
  high : Nat
  unit : Int
  closed : Bool

/-- The interval of a finite word.  Just below a power of two the step is half as wide, unless
the power of two is the least normal number. -/
def interval (format : FloatFormat) (word : Nat) : Interval :=
  let m := format.significand word
  let narrow := format.fraction word = 0 ∧ 1 < format.exponent word
  { low := 4 * m - (if narrow then 1 else 2)
    value := 4 * m
    high := 4 * m + 2
    unit := format.power word - 2
    closed := m % 2 == 0 }

/-- Whether `point * den` lies in the interval whose ends are counted in units of `num`. -/
def Interval.holds (i : Interval) (num den point : Nat) : Bool :=
  if i.closed then i.low * num ≤ point * den && point * den ≤ i.high * num
  else i.low * num < point * den && point * den < i.high * num

/-- The point of the grid `10 ^ g` that the interval prefers, if it holds one.  One unit of the
interval is `num / den` steps of the grid. -/
def Interval.onGrid (i : Interval) (g : Int) : Option Nat :=
  let num := Nat.pow 2 i.unit.toNat * Nat.pow 10 (-g).toNat
  let den := Nat.pow 2 (-i.unit).toNat * Nat.pow 10 g.toNat
  let below := i.value * num / den
  let nearUp := den ≤ 2 * (i.value * num - below * den)
  match i.holds num den below, i.holds num den (below + 1) with
  | true, true => some (if nearUp then below + 1 else below)
  | true, false => some below
  | false, true => some (below + 1)
  | false, false => none

/-- The first hit on the grids `10 ^ g`, `10 ^ (g - 1)`, …; `tries` bounds how many are tried. -/
def Interval.search (i : Interval) : (tries : Nat) → (g : Int) → Digits
  | 0, g => ⟨0, g⟩
  | tries + 1, g =>
    match i.onGrid g with
    | some point => ⟨point, g⟩
    | none => i.search tries (g - 1)

/-- A grid that is coarser than the interval: `30103 / 100000` is the decimal logarithm of two,
rounded up. -/
def Interval.coarsest (i : Interval) : Int :=
  (i.value.log2 + 1 + i.unit) * 30103 / 100000 + 2

/-- The shortest decimal of the magnitude of a finite word other than zero.  Seventeen digits are
enough for a double, and the search begins at most four grids above the first of them. -/
def ofWord (format : FloatFormat) (word : Nat) : Digits :=
  let i := interval format word
  i.search 24 i.coarsest

end DocumentCodec.Shortest
