import TypedRecord.Decimal.Numeral

/-!
# Reading numerals in steps

A numeral can be read without long numbers. Its digits are taken for as long as the number they make
has 64 bits; that number is rounded, and the outcome is multiplied or divided by powers of ten that
are rounded themselves. Every step rounds, so what is read may be a neighbour of the datum nearest
to the numeral.
-/
namespace TypedRecord

namespace BinaryFormat

/-- The pattern nearest to the product of two magnitudes. -/
def product (format : BinaryFormat) (left right : Nat) : Nat :=
  format.nearest (format.units left * format.units right) (format.one * format.one)

/-- The pattern nearest to the quotient of two magnitudes. -/
def quotient (format : BinaryFormat) (left right : Nat) : Nat :=
  format.nearest (format.units left) (format.units right)

/-- The pattern nearest to a power of ten. -/
def ten (format : BinaryFormat) (power : Nat) : Nat := format.nearest (10 ^ power) 1

end BinaryFormat

namespace Digits

/-- The number that a word makes with the digits after it, as far as it has 64 bits, and the digits
that are left. -/
def gather (word : Nat) : List Digit → Nat × List Digit
  | [] => (word, [])
  | digit :: rest =>
    if 10 * word + digit.val < 2 ^ 64 then gather (10 * word + digit.val) rest
    else (word, digit :: rest)

end Digits

namespace Stepwise

/-- The largest power of ten that is finite. -/
def maxPower : Nat := 308

/-- A magnitude divided by the largest power of ten a number of times. -/
def shrink : Nat → Nat → Nat
  | 0, magnitude => magnitude
  | times + 1, magnitude =>
    if magnitude = 0 then 0
    else shrink times (BinaryFormat.double.quotient magnitude (BinaryFormat.double.ten maxPower))

/-- A magnitude times a power of ten. Only zero is not too large for a power that is not finite, and
a power that is too small is divided by in several steps. -/
def scaled (magnitude : Nat) : Int → Nat
  | .ofNat power =>
    if power ≤ maxPower then BinaryFormat.double.product magnitude (BinaryFormat.double.ten power)
    else if magnitude = 0 then 0
    else BinaryFormat.double.infinity
  | .negSucc power =>
    BinaryFormat.double.quotient (shrink (power / maxPower) magnitude)
      (BinaryFormat.double.ten (power % maxPower + 1))

end Stepwise

namespace Numeral

/-- The datum that the steps come to. The digits of the whole part that are left count as zeros, and
those of the fraction that are left count for nothing. -/
def stepwise (numeral : Numeral) : Double :=
  let (whole, zeros) := Digits.gather 0 (Digits.ofNat numeral.whole)
  let (word, ignored) := Digits.gather whole numeral.fraction
  let taken := numeral.fraction.length - ignored.length
  let power : Int := numeral.exponent.getD 0 + zeros.length - taken
  Binary.ofPattern numeral.negative (Stepwise.scaled (BinaryFormat.double.nearest word 1) power)

end Numeral

end TypedRecord
