/-!
# Binary floating-point numbers

A binary format has a number of significand bits and a number of exponent bits.
A bit pattern stands for a signed zero, a finite number `significand * 2 ^ exponent`,
an infinity or no number at all, and an exact fraction rounds to the nearest
pattern, of two equally near ones to the even one.
-/

namespace StackMaps
namespace Decimal

/-- A binary format. The leading bit of a normal significand counts towards its
precision although it is not stored. -/
structure BinaryFormat where
  precision : Nat
  exponentBits : Nat
  deriving DecidableEq

/-- The format with 32 bits. -/
def binary32 : BinaryFormat := ⟨24, 8⟩

/-- The format with 64 bits. -/
def binary64 : BinaryFormat := ⟨53, 11⟩

/-- The magnitude of a bit pattern. -/
inductive Magnitude
  | finite (significand : Nat) (exponent : Int)
  | infinite
  | notANumber
  deriving DecidableEq

namespace BinaryFormat

/-- The number of stored significand bits. -/
def fractionBits (format : BinaryFormat) : Nat :=
  format.precision - 1

/-- The exponent of the last bit of the smallest significands. -/
def leastExponent (format : BinaryFormat) : Int :=
  3 - (Nat.pow 2 (format.exponentBits - 1) : Nat) - (format.precision : Int)

/-- The pattern of positive infinity, which is above all finite patterns. -/
def infinityBits (format : BinaryFormat) : Nat :=
  (Nat.pow 2 format.exponentBits - 1) * Nat.pow 2 format.fractionBits

/-- The pattern that stands for no number. -/
def notANumberBits (format : BinaryFormat) : Nat :=
  format.infinityBits + Nat.pow 2 (format.fractionBits - 1)

/-- The sign bit alone. -/
def signBit (format : BinaryFormat) : Nat :=
  Nat.pow 2 (format.exponentBits + format.fractionBits)

/-- Put a sign in front of a pattern without one. -/
def withSign (format : BinaryFormat) (negative : Bool) (bits : Nat) : Nat :=
  if negative then format.signBit + bits else bits

/-- Does the pattern have its sign bit set? -/
def isNegative (format : BinaryFormat) (bits : Nat) : Bool :=
  format.signBit ≤ bits

/-- What a pattern stands for, apart from its sign. -/
def magnitude (format : BinaryFormat) (bits : Nat) : Magnitude :=
  let unsigned := bits % format.signBit
  let fraction := unsigned % Nat.pow 2 format.fractionBits
  let biased := unsigned / Nat.pow 2 format.fractionBits
  if biased = Nat.pow 2 format.exponentBits - 1 then
    if fraction = 0 then .infinite else .notANumber
  else if biased = 0 then
    .finite fraction format.leastExponent
  else
    .finite (Nat.pow 2 format.fractionBits + fraction)
      (format.leastExponent + (biased : Int) - 1)

end BinaryFormat

/-- A positive fraction times a power of the base, as a fraction. -/
def scale
    (base : Nat)
    (exponent : Int)
    (fraction : Nat × Nat) : Nat × Nat :=
  match exponent with
  | .ofNat power => (fraction.1 * Nat.pow base power, fraction.2)
  | .negSucc power => (fraction.1, fraction.2 * Nat.pow base (power + 1))

/-- The quotient rounded to the nearest whole number, a half to the even one. -/
def roundHalfEven (numerator denominator : Nat) : Nat :=
  let quotient := numerator / denominator
  let twice := 2 * (numerator % denominator)
  if twice > denominator || (twice == denominator && quotient % 2 == 1) then quotient + 1
  else quotient

/-- The pattern nearest to a fraction without a sign. Patterns of one sign
ascend with the numbers that they stand for, so a significand that rounds up to
the next power of two carries into the exponent, and the largest ones carry into
infinity. -/
def BinaryFormat.round (format : BinaryFormat) (fraction : Nat × Nat) : Nat :=
  if fraction.1 = 0 then 0
  else
    let ratioLog := (fraction.1.log2 : Int) - (fraction.2.log2 : Int)
    -- The binary logarithm of the fraction is `ratioLog` or one less.
    let scaled := scale 2 (-ratioLog) fraction
    let log := if scaled.1 < scaled.2 then ratioLog - 1 else ratioLog
    let exponent := max (log - format.fractionBits) format.leastExponent
    let unit := scale 2 (-exponent) fraction
    let significand := roundHalfEven unit.1 unit.2
    let steps := (exponent - format.leastExponent).toNat
    let bits := steps * Nat.pow 2 format.fractionBits + significand
    min bits format.infinityBits

end Decimal
end StackMaps
