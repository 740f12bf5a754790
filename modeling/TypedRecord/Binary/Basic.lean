/-!
# Binary floating point

A format fixes the width of the fraction and of the exponent. A datum of a format is the one value
that is not a number, or a sign with a magnitude pattern: the exponent field above the fraction
field, read as one natural number. Patterns are ordered as the magnitudes they stand for, and
every finite magnitude is a natural multiple of the smallest one of its format, so reading,
rounding and converting are exact arithmetic on natural numbers.
-/
namespace TypedRecord

-- A power of a number is the one of the core library also where the powers of a monoid are known.
attribute [scoped instance (high), default_instance (high + 1)] instPowNat

/-- The widths of the two fields of a binary format. -/
structure BinaryFormat where
  /-- Bits of the fraction field. -/
  fractionBits : Nat
  /-- Bits of the exponent field. -/
  exponentBits : Nat
deriving DecidableEq, Repr

namespace BinaryFormat

/-- The 16-bit format. -/
def half : BinaryFormat := ⟨10, 5⟩

/-- The 32-bit format. -/
def single : BinaryFormat := ⟨23, 8⟩

/-- The 64-bit format. -/
def double : BinaryFormat := ⟨52, 11⟩

/-- The number of magnitudes between two neighbouring powers of two. -/
def binade (format : BinaryFormat) : Nat := 2 ^ format.fractionBits

/-- The pattern of infinity: all ones in the exponent field, zero in the fraction field. -/
def infinity (format : BinaryFormat) : Nat := (2 ^ format.exponentBits - 1) * format.binade

/-- The weight of the sign bit above a pattern. -/
def signWeight (format : BinaryFormat) : Nat := 2 ^ (format.fractionBits + format.exponentBits)

/-- The smallest magnitude of the format is `2 ^ -depth`. -/
def depth (format : BinaryFormat) : Nat := 2 ^ (format.exponentBits - 1) - 2 + format.fractionBits

/-- The number of smallest magnitudes in one. -/
def one (format : BinaryFormat) : Nat := 2 ^ format.depth

/-- The magnitude of a finite pattern, counted in smallest magnitudes. -/
def units (format : BinaryFormat) (pattern : Nat) : Nat :=
  let exponent := pattern / format.binade
  let fraction := pattern % format.binade
  if exponent = 0 then fraction else (format.binade + fraction) * 2 ^ (exponent - 1)

/-- The quotient of two natural numbers, rounded to the nearest one and to the even one of two. -/
def roundHalfEven (numerator denominator : Nat) : Nat :=
  let quotient := numerator / denominator
  let rest := 2 * (numerator % denominator)
  if rest < denominator ∨ (rest = denominator ∧ quotient % 2 = 0) then quotient else quotient + 1

/-- The pattern nearest to a quotient of natural numbers. A tie goes to the even pattern, and a
quotient beyond the largest finite magnitude by half a step or more becomes infinity. -/
def nearest (format : BinaryFormat) (numerator denominator : Nat) : Nat :=
  let scaled := numerator * format.one
  let shift := Nat.log2 (scaled / denominator) - format.fractionBits
  min (shift * format.binade + roundHalfEven scaled (denominator * 2 ^ shift)) format.infinity

end BinaryFormat

/-- A datum of a binary format. All values that are not numbers count as one. -/
inductive Binary (format : BinaryFormat) where
  /-- Not a number. -/
  | nan
  /-- A sign and a magnitude pattern, at most the pattern of infinity. -/
  | signed (negative : Bool) (pattern : Fin (format.infinity + 1))
deriving DecidableEq, Repr

/-- A 32-bit datum. -/
abbrev Single := Binary BinaryFormat.single

/-- A 64-bit datum. -/
abbrev Double := Binary BinaryFormat.double

namespace Binary

variable {format : BinaryFormat}

/-- The datum of a sign and a pattern; a pattern beyond infinity is not a number. -/
def ofPattern (negative : Bool) (pattern : Nat) : Binary format :=
  if fits : pattern < format.infinity + 1 then .signed negative ⟨pattern, fits⟩ else .nan

/-- Positive zero. -/
def zero : Binary format := .signed false ⟨0, Nat.succ_pos _⟩

instance : Inhabited (Binary format) := ⟨zero⟩

/-- The datum written in the low bits of a word. -/
def ofBits (word : Nat) : Binary format :=
  ofPattern (word / format.signWeight % 2 = 1) (word % format.signWeight)

/-- The word of a datum. Not a number is written with the highest fraction bit set. -/
def toBits : Binary format → Nat
  | .nan => format.infinity + format.binade / 2
  | .signed negative pattern => (if negative then format.signWeight else 0) + pattern.val

/-- Whether the datum is neither infinite nor not a number. -/
def isFinite : Binary format → Bool
  | .nan => false
  | .signed _ pattern => pattern.val < format.infinity

/-- The number of a finite datum, counted in smallest magnitudes of its format. -/
def scaled? : Binary format → Option Int
  | .nan => none
  | .signed negative pattern =>
    if pattern.val < format.infinity then
      let magnitude : Int := format.units pattern.val
      some (if negative then -magnitude else magnitude)
    else none

/-- The datum nearest to a signed quotient. -/
def ofRatio (negative : Bool) (numerator denominator : Nat) : Binary format :=
  ofPattern negative (format.nearest numerator denominator)

/-- The datum nearest to an integer. -/
def ofInt (number : Int) : Binary format :=
  ofRatio (number < 0) number.natAbs 1

/-- The datum of another format nearest to this one. -/
def convert {target : BinaryFormat} : Binary format → Binary target
  | .nan => .nan
  | .signed negative pattern =>
    if pattern.val < format.infinity then
      ofRatio negative (format.units pattern.val) format.one
    else ofPattern negative target.infinity

/-- Whether two data are the same number; not a number is not even equal to itself, and the two
zeros are equal. -/
def sameNumber : Binary format → Binary format → Bool
  | .signed negative pattern, .signed negative' pattern' =>
    pattern = pattern' && (negative = negative' || pattern.val = 0)
  | _, _ => false

end Binary

end TypedRecord
