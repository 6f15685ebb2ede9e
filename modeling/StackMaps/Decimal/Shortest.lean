import StackMaps.Decimal.Binary

/-!
# Shortest decimal digits

Among the decimals that round to a given binary number, those with the fewest
digits are singled out, and of these the one nearest to the number. Of two
equally near ones the larger is taken.
-/

namespace StackMaps
namespace Decimal

/-- A positive decimal `0.d₁d₂… * 10 ^ point`, whose first and last digits are
not zero. -/
structure Digits where
  digits : List Char
  point : Int
  deriving DecidableEq

/-- The least `point` with `fraction < 10 ^ point`. -/
def decimalPoint (fraction : Nat × Nat) : Int :=
  let ratioLog := (fraction.1.log2 : Int) - (fraction.2.log2 : Int)
  let below := ratioLog * 30103 / 100000 - 1
  -- The estimate is too small by at most four.
  let reaches (point : Int) : Bool :=
    let scaled := scale 10 (-point) fraction
    scaled.1 < scaled.2
  ([0, 1, 2, 3].map fun (step : Int) => below + step).find? reaches |>.getD (below + 4)

/-- The numbers that round to a finite pattern, in quarters of its last place. -/
structure RoundingInterval where
  /-- The number itself, as a fraction. -/
  value : Nat × Nat
  /-- The least of the numbers. -/
  lower : Nat × Nat
  /-- The greatest of the numbers. -/
  upper : Nat × Nat
  /-- Do the two ends themselves round to the pattern? -/
  closed : Bool

/-- The numbers that round to `significand * 2 ^ exponent`. Below a power of two
the patterns are twice as dense. -/
def roundingInterval
    (format : BinaryFormat)
    (significand : Nat)
    (exponent : Int) : RoundingInterval :=
  let atPower :=
    significand == Nat.pow 2 format.fractionBits && format.leastExponent < exponent
  { value := scale 2 (exponent - 2) (4 * significand, 1)
    lower := scale 2 (exponent - 2) (4 * significand - (if atPower then 1 else 2), 1)
    upper := scale 2 (exponent - 2) (4 * significand + 2, 1)
    closed := significand % 2 == 0 }

/-- Does the interval hold `candidate / denominator`? -/
def RoundingInterval.holds
    (interval : RoundingInterval)
    (candidate denominator : Nat) : Bool :=
  let below := interval.lower.1 * denominator
  let above := interval.upper.1 * denominator
  if interval.closed then
    below ≤ candidate * interval.lower.2 && candidate * interval.upper.2 ≤ above
  else
    below < candidate * interval.lower.2 && candidate * interval.upper.2 < above

/-- The multiple of `10 ^ grid` in the interval that is nearest to its value, as
a factor of that power. -/
def nearestOnGrid? (interval : RoundingInterval) (grid : Int) : Option Nat :=
  let unit := scale 10 (-grid) interval.value
  let power := scale 10 grid (1, 1)
  let below := unit.1 / unit.2
  let twice := 2 * (unit.1 % unit.2)
  let ordered := if twice < unit.2 then [below, below + 1] else [below + 1, below]
  ordered.find? fun candidate =>
    0 < candidate && interval.holds (candidate * power.1) power.2

/-- The shortest digits of `significand * 2 ^ exponent`, for a significand other
than zero. -/
def shortest
    (format : BinaryFormat)
    (significand : Nat)
    (exponent : Int) : Digits :=
  let interval := roundingInterval format significand exponent
  let point := decimalPoint interval.value
  let found? :=
    (List.range 20).findSome? fun (count : Nat) =>
      let grid := point - (count : Int) - 1
      (nearestOnGrid? interval grid).map fun candidate => (candidate, grid)
  let (candidate, grid) := found?.getD (0, 0)
  let digits := Nat.toDigits 10 candidate
  { digits := (digits.reverse.dropWhile (· == '0')).reverse
    point := grid + (digits.length : Int) }

end Decimal
end StackMaps
