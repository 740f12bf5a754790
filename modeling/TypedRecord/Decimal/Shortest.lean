import TypedRecord.Decimal.Numeral

/-!
# Shortest numerals

The numeral of a finite datum has the fewest digits among the numerals that read back as the datum.
For one digit, two digits and so on, the two neighbours of the datum on the decimal grid of that
many digits are tried, the nearer one first and of two equally near ones the even one first. Every
trial is a reading, so a numeral that is found reads back by construction; the exact expansion
stands behind the search.
-/
namespace TypedRecord

/-- The decimal exponents that are written without a power of ten. -/
structure NumberLayout where
  /-- The smallest exponent of the first digit that is written with leading zeros. -/
  plainFrom : Int
  /-- The largest exponent of the first digit that is written with trailing zeros. -/
  plainTo : Int

namespace Shortest

/-- A coefficient without trailing zeros, and its scale. -/
def stripped (coefficient : Nat) (scale : Int) : Nat × Int :=
  if trailing : coefficient ≠ 0 ∧ coefficient % 10 = 0 then
    stripped (coefficient / 10) (scale + 1)
  else (coefficient, scale)
termination_by coefficient
decreasing_by omega

/-- The numeral that writes `coefficient * 10 ^ scale`: with at least one fraction digit where the
layout asks for no power of ten, else with one digit before the point. -/
def written (layout : NumberLayout) (negative : Bool) (coefficient : Nat) (scale : Int) : Numeral :=
  let (coefficient, scale) := stripped coefficient scale
  let digits := Digits.ofNat coefficient
  let exponent := scale + digits.length - 1
  if layout.plainFrom ≤ exponent ∧ exponent ≤ layout.plainTo then
    match scale with
    | .ofNat power => ⟨negative, coefficient * 10 ^ power, [0], none⟩
    | .negSucc power =>
      let width := power + 1
      ⟨negative, coefficient / 10 ^ width, Digits.fixed width (coefficient % 10 ^ width), none⟩
  else
    ⟨negative, Digits.value (digits.take 1), digits.drop 1, some exponent⟩

/-- Whether ten to a power is at most a quotient. -/
def powerAtMost (power : Int) (numerator denominator : Nat) : Bool :=
  match power with
  | .ofNat power => 10 ^ power * denominator ≤ numerator
  | .negSucc power => denominator ≤ numerator * 10 ^ (power + 1)

/-- The exponent of the first decimal digit of a quotient. The logarithm of two to base ten is
close to 30103 / 100000, which leaves one neighbour on either side to try. -/
def leadingExponent (numerator denominator : Nat) : Int :=
  let guess := Int.fdiv (((Nat.log2 numerator : Int) - Nat.log2 denominator) * 30103) 100000
  if powerAtMost (guess + 1) numerator denominator then guess + 1
  else if powerAtMost guess numerator denominator then guess
  else guess - 1

/-- The two neighbours of a quotient among the multiples of ten to the scale, nearer one first. -/
def neighbours (numerator denominator : Nat) (scale : Int) : List (Nat × Int) :=
  let (top, bottom) := match scale with
    | .ofNat power => (numerator, denominator * 10 ^ power)
    | .negSucc power => (numerator * 10 ^ (power + 1), denominator)
  let below := top / bottom
  if BinaryFormat.roundHalfEven top bottom = below then [(below, scale), (below + 1, scale)]
  else [(below + 1, scale), (below, scale)]

/-- The neighbours of a quotient on the grids of one to `most` digits. -/
def candidates (numerator denominator most : Nat) : List (Nat × Int) :=
  let leading := leadingExponent numerator denominator
  (List.range most).flatMap fun further : Nat =>
    neighbours numerator denominator (leading - further)

/-- All digits of a finite pattern. -/
def exact (format : BinaryFormat) (negative : Bool) (pattern : Nat) : Numeral :=
  let units := format.units pattern
  ⟨negative, units / format.one,
    Digits.fixed format.depth (units % format.one * 5 ^ format.depth), none⟩

end Shortest

/-- Seventeen digits tell every two 64-bit data apart. -/
def Double.mostDigits : Nat := 17

/-- The numeral with the fewest digits that reads back as a finite datum. -/
def Double.numeral? (layout : NumberLayout) : Double → Option Numeral
  | .nan => none
  | .signed negative pattern =>
    let format := BinaryFormat.double
    if pattern.val ≥ format.infinity then none
    else if pattern.val = 0 then some ⟨negative, 0, [0], none⟩
    else
      let numerals := (Shortest.candidates (format.units pattern.val) format.one
        Double.mostDigits).map fun (coefficient, scale) =>
          Shortest.written layout negative coefficient scale
      some ((numerals.find? fun numeral => numeral.pattern format = pattern.val).getD
        (Shortest.exact format negative pattern.val))

end TypedRecord
