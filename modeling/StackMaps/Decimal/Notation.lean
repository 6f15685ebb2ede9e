import StackMaps.Decimal.Shortest
import StackMaps.Numeral

/-!
# Decimal notation

How floating-point numbers are written and read. A number is written with its
shortest digits and at least one digit on either side of the point, with an
exponent when it is very large or very small. Any decimal with digits, a point
and an exponent is read, and rounded correctly.
-/

namespace StackMaps
namespace Decimal

/-- Digits with the point between them, from `10 ^ -4` to below `10 ^ 16`. -/
def positional (number : Digits) : List Char :=
  if number.point ≤ 0 then
    ['0', '.'] ++ List.replicate (-number.point).toNat '0' ++ number.digits
  else
    let whole := number.point.toNat
    let missing := whole - number.digits.length
    let fraction := number.digits.drop whole
    number.digits.take whole ++ List.replicate missing '0' ++ ['.'] ++
      (if fraction.isEmpty then ['0'] else fraction)

/-- One digit, a point if more follow, and an exponent. -/
def scientific (number : Digits) : List Char :=
  let behind := number.digits.drop 1
  number.digits.take 1 ++ (if behind.isEmpty then [] else '.' :: behind) ++
    ['e'] ++ (toString (number.point - 1)).toList

/-- Write the number of a bit pattern. -/
def write (format : BinaryFormat) (bits : Nat) : List Char :=
  let sign := if format.isNegative bits then ['-'] else []
  match format.magnitude bits with
  | .notANumber => ['N', 'a', 'N']
  | .infinite => sign ++ ['i', 'n', 'f']
  | .finite 0 _ => sign ++ ['0', '.', '0']
  | .finite significand exponent =>
      let number := shortest format significand exponent
      sign ++
        if -3 ≤ number.point && number.point ≤ 16 then positional number
        else scientific number

/-- A number as it is read: `digits * 10 ^ exponent`. -/
structure Reading where
  digits : List Char
  exponent : Int

/-- The characters `0` to `9`. -/
def isDigit (character : Char) : Bool :=
  '0' ≤ character && character ≤ '9'

/-- An exponent stops growing here, far outside the range of every format. -/
def exponentCap : Nat := 65536

/-- The value of the digits of an exponent. -/
def exponentValue (digits : List Char) : Nat :=
  digits.foldl
    (fun value digit =>
      if value < exponentCap then 10 * value + (digit.toNat - 48) else value)
    0

/-- Read what may follow the digits: nothing, or an exponent. -/
def readExponent? : List Char → Option Int
  | [] => some 0
  | mark :: rest =>
      if mark = 'e' || mark = 'E' then
        let (negative, digits) :=
          match rest with
          | '-' :: digits => (true, digits)
          | '+' :: digits => (false, digits)
          | digits => (false, digits)
        if digits.isEmpty || !digits.all isDigit then none
        else
          let value := (exponentValue digits : Int)
          some (if negative then -value else value)
      else none

/-- Read a number without a sign: digits with at most one point among them and
an exponent. There must be a digit in front of the exponent. -/
def readUnsigned? (text : List Char) : Option Reading :=
  let whole := text.takeWhile isDigit
  let behind := text.dropWhile isDigit
  let (fraction, tail) :=
    match behind with
    | '.' :: rest => (rest.takeWhile isDigit, rest.dropWhile isDigit)
    | rest => ([], rest)
  if whole.isEmpty && fraction.isEmpty then none
  else
    (readExponent? tail).map fun exponent =>
      { digits := whole ++ fraction, exponent := exponent - (fraction.length : Int) }

/-- The pattern nearest to a number without a sign. Numbers far outside the range
of the formats are settled without computing their digits. -/
def Reading.bits (format : BinaryFormat) (reading : Reading) : Nat :=
  let digits := reading.digits.dropWhile (· == '0')
  let point := (digits.length : Int) + reading.exponent
  if digits.isEmpty || point < -400 then 0
  else if 400 < point then format.infinityBits
  else
    format.round (scale 10 reading.exponent ((Numeral.readDigits? 10 digits).getD 0, 1))

/-- Words for numbers that no digits can write, in lower case. -/
def readWord? (format : BinaryFormat) (text : List Char) : Option Nat :=
  let word := String.ofList (text.map Char.toLower)
  if word = "inf" || word = "infinity" then some format.infinityBits
  else if word = "nan" then some format.notANumberBits
  else none

/-- Read a number with an optional sign as the pattern nearest to it. -/
def read? (format : BinaryFormat) (text : List Char) : Option Nat :=
  let (negative, unsigned) :=
    match text with
    | '-' :: rest => (true, rest)
    | '+' :: rest => (false, rest)
    | rest => (false, rest)
  let bits? :=
    match readUnsigned? unsigned with
    | some reading => some (reading.bits format)
    | none => readWord? format unsigned
  bits?.map (format.withSign negative)

end Decimal
end StackMaps
