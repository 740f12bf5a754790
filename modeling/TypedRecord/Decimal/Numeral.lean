import TypedRecord.Binary.Basic
import TypedRecord.Text.Digits

/-!
# Decimal numerals

A numeral is a number as it is written: a sign, a whole part, fraction digits and a power of ten.
Reading it as a binary datum is exact up to one rounding. A power of ten far outside the range of
the format is decided without being computed, so no numeral is expensive to read.
-/
namespace TypedRecord

/-- A number as written in decimal digits. -/
structure Numeral where
  /-- Whether a minus sign stands in front. -/
  negative : Bool
  /-- The digits before the point. -/
  whole : Nat
  /-- The digits after the point; none when no point is written. -/
  fraction : List Digit
  /-- The power of ten, when one is written. -/
  exponent : Option Int
deriving DecidableEq

/-- The magnitude pattern nearest to `coefficient * 10 ^ scale`. -/
def BinaryFormat.nearestDecimal (format : BinaryFormat) (coefficient : Nat) (scale : Int) : Nat :=
  if coefficient = 0 then 0
  else if scale > 2 ^ format.exponentBits then format.infinity
  else if Nat.log2 coefficient + 1 + scale < -(format.depth + 1 : Int) then 0
  else match scale with
    | .ofNat power => format.nearest (coefficient * 10 ^ power) 1
    | .negSucc power => format.nearest coefficient (10 ^ (power + 1))

namespace Numeral

/-- The digits of the numeral as one natural number. -/
def coefficient (numeral : Numeral) : Nat :=
  numeral.whole * 10 ^ numeral.fraction.length + Digits.value numeral.fraction

/-- The power of ten that the last digit of the numeral counts. -/
def scale (numeral : Numeral) : Int :=
  numeral.exponent.getD 0 - numeral.fraction.length

/-- Whether neither a point nor a power of ten is written. -/
def isInteger (numeral : Numeral) : Bool :=
  numeral.fraction.isEmpty && numeral.exponent.isNone

/-- The pattern nearest to the magnitude of the numeral. -/
def pattern (format : BinaryFormat) (numeral : Numeral) : Nat :=
  format.nearestDecimal numeral.coefficient numeral.scale

/-- The datum nearest to the numeral. -/
def toBinary {format : BinaryFormat} (numeral : Numeral) : Binary format :=
  Binary.ofPattern numeral.negative (numeral.pattern format)

/-- The numeral of an integer. -/
def ofInt (number : Int) : Numeral := ⟨number < 0, number.natAbs, [], none⟩

end Numeral

end TypedRecord
