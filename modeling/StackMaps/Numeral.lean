/-!
# Numerals

Whole numbers in a positional base: reading with an optional sign and a range,
and writing with lower-case digits. A numeral has at least one digit and
nothing but digits after its sign.
-/

namespace StackMaps
namespace Numeral

/-- The value of a digit below the base. Letters count from ten in either
case. -/
def digitValue? (base : Nat) (character : Char) : Option Nat :=
  let code := character.toNat
  let value? :=
    if 48 ≤ code && code ≤ 57 then some (code - 48)
    else if 97 ≤ code && code ≤ 122 then some (code - 87)
    else if 65 ≤ code && code ≤ 90 then some (code - 55)
    else none
  value?.filter (· < base)

/-- Continue a number with more digits. -/
def extend? (base : Nat) (digits : List Char) (number : Nat) : Option Nat :=
  digits.foldlM
    (fun value character =>
      (digitValue? base character).map fun digit => value * base + digit)
    number

/-- Read a number without a sign. -/
def readDigits? (base : Nat) (text : List Char) : Option Nat :=
  if text.isEmpty then none else extend? base text 0

/-- Read a number that may have a plus sign in front. -/
def readNat? (base : Nat) : List Char → Option Nat
  | '+' :: digits => readDigits? base digits
  | digits => readDigits? base digits

/-- Read a decimal number that may have a sign in front. -/
def readInt? : List Char → Option Int
  | '-' :: digits => (readDigits? 10 digits).map fun magnitude => -(magnitude : Int)
  | text => (readNat? 10 text).map Int.ofNat

/-- Read a natural number with at most the given number of bits. -/
def readBits? (width : Nat) (text : List Char) : Option Nat :=
  (readNat? 10 text).filter (· < Nat.pow 2 width)

/-- Read an integer in the two's complement range of the given number of
bits. -/
def readSigned? (width : Nat) (text : List Char) : Option Int :=
  (readInt? text).filter fun value =>
    -Int.pow 2 (width - 1) ≤ value && value < Int.pow 2 (width - 1)

/-- A number in lower-case hexadecimal digits. -/
def hexadecimal (number : Nat) : List Char :=
  Nat.toDigits 16 number

end Numeral
end StackMaps
