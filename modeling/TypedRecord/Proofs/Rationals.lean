import Mathlib.Data.Rat.Floor
import TypedRecord.Proofs.Binary
import TypedRecord.Value.Coercion

/-!
# Data of a binary format as rational numbers

A finite datum is a rational number, which the two fields of its pattern give: the fraction field
counts the binades of one, and the exponent field says by how many powers of two that is shifted.
The count of smallest magnitudes is that number times one. From the width of the fraction field on,
all magnitudes are whole, and further on they are multiples of ever higher powers of two. Main
statement: the integer part of a datum that lies between two bounds is the number truncated toward
zero, and the test against the bounds admits the very data whose integer part lies between them.
-/
namespace TypedRecord

/-! ### Truncation toward zero -/

/-- The integer next to a number on the side of zero. -/
def truncated (number : ℚ) : Int := if 0 ≤ number then ⌊number⌋ else ⌈number⌉

/-- A quotient of an integer by a natural number is truncated as integers are divided. -/
theorem truncated_div (numerator : Int) {denominator : Nat} (positive : 0 < denominator) :
    truncated (numerator / denominator) = numerator.tdiv denominator := by
  have below : (0 : ℚ) < denominator := Nat.cast_pos.mpr positive
  by_cases sign : 0 ≤ numerator
  · have nonnegative : (0 : ℚ) ≤ numerator / denominator :=
      div_nonneg (Int.cast_nonneg sign) below.le
    rw [truncated, if_pos nonnegative, Rat.floor_intCast_div_natCast,
      Int.tdiv_eq_ediv_of_nonneg sign]
  · have negative : (numerator : ℚ) / denominator < 0 :=
      div_neg_of_neg_of_pos (Int.cast_lt_zero.mpr (by omega)) below
    have quotient : numerator.tdiv denominator = -(-numerator / denominator) := by
      rw [← Int.neg_neg (numerator.tdiv denominator), ← Int.neg_tdiv,
        Int.tdiv_eq_ediv_of_nonneg (by omega)]
    rw [truncated, if_neg (not_le.mpr negative), Rat.ceil_intCast_div_natCast, quotient]

/-- An integer is truncated to itself. -/
theorem truncated_intCast (number : Int) : truncated number = number := by
  rw [truncated, Int.floor_intCast, Int.ceil_intCast, ite_self]

/-- A number is truncated to zero when it lies between minus one and one. -/
theorem truncated_eq_zero_iff {number : ℚ} : truncated number = 0 ↔ -1 < number ∧ number < 1 := by
  rw [truncated]
  split
  · next nonnegative =>
    rw [Int.floor_eq_zero_iff, Set.mem_Ico]
    exact ⟨fun inside => ⟨by linarith, inside.2⟩, fun inside => ⟨nonnegative, inside.2⟩⟩
  · next negative =>
    rw [Int.ceil_eq_zero_iff, Set.mem_Ioc]
    exact ⟨fun inside => ⟨inside.1, by linarith⟩, fun inside => ⟨inside.1, by linarith⟩⟩

namespace BinaryFormat

variable {format : BinaryFormat} {pattern : Nat}

/-! ### Magnitudes as rational numbers -/

/-- What the exponent field of one holds. -/
def bias (format : BinaryFormat) : Int := 2 ^ (format.exponentBits - 1) - 1

/-- The magnitude of a finite pattern: one and the fraction, shifted by the exponent field less its
bias; without the one, and shifted as by the next exponent, where the exponent field is zero. -/
def magnitude (format : BinaryFormat) (pattern : Nat) : ℚ :=
  let exponent : Nat := pattern / format.binade
  let fraction : ℚ := (pattern % format.binade : Nat) / (format.binade : Nat)
  if exponent = 0 then fraction * (2 : ℚ) ^ (1 - format.bias)
  else (1 + fraction) * (2 : ℚ) ^ ((exponent : Int) - format.bias)

/-- The fraction field and the exponent of the smallest magnitudes make up the depth. -/
theorem depth_eq (exponents : 2 ≤ format.exponentBits) :
    (format.depth : Int) = format.bias - 1 + format.fractionBits := by
  have rows : 2 ^ 1 ≤ 2 ^ (format.exponentBits - 1) := Nat.pow_le_pow_right (by decide) (by omega)
  have cast : ((2 ^ (format.exponentBits - 1) : Nat) : Int) = 2 ^ (format.exponentBits - 1) :=
    Nat.cast_pow 2 _
  rw [depth, bias, ← cast]
  omega

/-- A magnitude is its count of smallest magnitudes, of which there are so many in one. -/
theorem magnitude_eq (exponents : 2 ≤ format.exponentBits) (pattern : Nat) :
    format.magnitude pattern = format.units pattern / format.one := by
  have binade : ((format.binade : Nat) : ℚ) ≠ 0 := Nat.cast_ne_zero.mpr binade_pos.ne'
  have lowest : (2 : ℚ) ^ (format.bias - 1) ≠ 0 := zpow_ne_zero _ two_ne_zero
  have one : ((format.one : Nat) : ℚ) = 2 ^ (format.bias - 1) * (format.binade : Nat) := by
    rw [BinaryFormat.one, BinaryFormat.binade, Nat.cast_pow, Nat.cast_pow, Nat.cast_two,
      ← zpow_natCast, ← zpow_natCast, depth_eq exponents, zpow_add₀ two_ne_zero]
  rw [magnitude, units, one]
  by_cases zero : pattern / format.binade = 0
  · have shifted : (2 : ℚ) ^ (1 - format.bias) = (2 ^ (format.bias - 1))⁻¹ := by
      rw [← zpow_neg, neg_sub]
    simp only [zero, if_true, shifted]
    field_simp
  · obtain ⟨power, exponent⟩ := Nat.exists_eq_succ_of_ne_zero zero
    have shifted : (2 : ℚ) ^ ((Nat.succ power : Nat) - format.bias) =
        2 ^ power / 2 ^ (format.bias - 1) := by
      rw [← zpow_natCast, ← zpow_sub₀ two_ne_zero]
      congr 1
      push_cast
      omega
    simp only [exponent, Nat.succ_ne_zero, if_false, shifted, Nat.succ_sub_one]
    push_cast
    field_simp

/-! ### Large magnitudes -/

/-- A magnitude that fills the fraction field to the units place of a power of two is a multiple of
that power. -/
theorem dvd_units {power : Nat}
    (large : 2 ^ (format.fractionBits + power) * format.one ≤ format.units pattern) :
    2 ^ power * format.one ∣ format.units pattern := by
  have positive : format.units pattern ≠ 0 := by
    have room : 0 < 2 ^ (format.fractionBits + power) * format.one :=
      Nat.mul_pos (Nat.two_pow_pos _) one_pos
    omega
  have digits : format.fractionBits + power + format.depth ≤ Nat.log2 (format.units pattern) := by
    rw [Nat.le_log2 positive, Nat.pow_add _ (format.fractionBits + power)]
    exact large
  have shifted : power + format.depth ≤ format.shift (format.units pattern) := by
    rw [shift]
    omega
  rw [one, ← Nat.pow_add]
  exact Nat.dvd_trans (Nat.pow_dvd_pow 2 shifted) (holds_units pattern)

/-- No magnitude lies between a power of two for which the fraction field is full and the whole
number after it. -/
theorem units_le_of_lt {power : Nat} (full : format.fractionBits ≤ power)
    (below : format.units pattern < (2 ^ power + 1) * format.one) :
    format.units pattern ≤ 2 ^ power * format.one := by
  by_contra above
  have fraction : 2 ^ (format.fractionBits + 0) ≤ 2 ^ power :=
    Nat.pow_le_pow_right (by decide) (by omega)
  have large : 2 ^ (format.fractionBits + 0) * format.one ≤ format.units pattern :=
    Nat.le_trans (Nat.mul_le_mul_right _ fraction) (by omega)
  obtain ⟨count, whole⟩ := dvd_units large
  rw [Nat.pow_zero, Nat.one_mul, Nat.mul_comm] at whole
  rw [whole] at above below
  have more : 2 ^ power < count := Nat.lt_of_mul_lt_mul_right (Nat.lt_of_not_le above)
  have less : count < 2 ^ power + 1 := Nat.lt_of_mul_lt_mul_right below
  omega

end BinaryFormat

namespace Binary

variable {format : BinaryFormat}

/-- The number of a finite datum. -/
def toRat? : Binary format → Option ℚ
  | .nan => none
  | .signed negative pattern =>
    if pattern.val < format.infinity then
      some (if negative then -format.magnitude pattern.val else format.magnitude pattern.val)
    else none

/-- The number of a datum is its count of smallest magnitudes, of which there are so many in one. -/
theorem toRat?_eq (exponents : 2 ≤ format.exponentBits) (datum : Binary format) :
    datum.toRat? = datum.scaled?.map fun (scaled : Int) => (scaled : ℚ) / format.one := by
  cases datum with
  | nan => rfl
  | signed negative pattern =>
    rw [toRat?, scaled?, BinaryFormat.magnitude_eq exponents]
    split
    · cases negative with
      | false => simp
      | true => simp [neg_div]
    · rfl

/-- The count of a finite datum is that of its magnitude, with its sign. -/
theorem exists_units_of_scaled? {datum : Binary format} {scaled : Int}
    (finite : datum.scaled? = some scaled) :
    ∃ pattern, scaled.natAbs = format.units pattern := by
  cases datum with
  | nan => cases finite
  | signed negative pattern =>
    rw [scaled?] at finite
    split at finite
    · refine ⟨pattern.val, ?_⟩
      cases negative <;> cases finite <;> simp
    · cases finite

/-! ### Bounds and integer parts -/

section Bounds

variable {scaled : Int}

/-- A negative count is divided as its magnitude is. -/
theorem neg_natCast_tdiv (count one : Nat) :
    (-(count : Int)).tdiv one = -((count / one : Nat) : Int) := by
  rw [Int.neg_tdiv, Int.tdiv_eq_ediv_of_nonneg (Int.natCast_nonneg count), Int.natCast_ediv]

/-- A number lies below an integer above zero exactly when its integer part does. -/
theorem lt_mul_iff_tdiv_lt {upper : Int} (positive : 0 < upper) :
    scaled < upper * format.one ↔ scaled.tdiv format.one < upper := by
  have one : (0 : Int) < format.one := Int.natCast_pos.mpr BinaryFormat.one_pos
  by_cases sign : 0 ≤ scaled
  · rw [Int.tdiv_eq_ediv_of_nonneg sign, Int.ediv_lt_iff_lt_mul one]
  · obtain ⟨count, rfl⟩ := Int.exists_eq_neg_ofNat (show scaled ≤ 0 by omega)
    have above := Int.mul_pos positive one
    have quotient := Int.natCast_nonneg (count / format.one)
    rw [neg_natCast_tdiv]
    constructor <;> intro _ <;> omega

/-- A datum lies no lower than minus a power of two for which the fraction field is full exactly
when its integer part does: no datum lies between that power and the integer below it. -/
theorem neg_mul_le_iff_le_tdiv {power pattern : Nat} (full : format.fractionBits ≤ power)
    (magnitude : scaled.natAbs = format.units pattern) :
    -2 ^ power * format.one ≤ scaled ↔ -2 ^ power ≤ scaled.tdiv format.one := by
  have one : (0 : Int) < format.one := Int.natCast_pos.mpr BinaryFormat.one_pos
  have room : (0 : Int) < 2 ^ power := Int.pow_pos (by decide)
  by_cases sign : 0 ≤ scaled
  · have quotient := Int.tdiv_nonneg sign one.le
    have product := Int.mul_pos room one
    rw [Int.neg_mul]
    constructor <;> intro _ <;> omega
  · obtain ⟨count, rfl⟩ := Int.exists_eq_neg_ofNat (show scaled ≤ 0 by omega)
    rw [Int.natAbs_neg, Int.natAbs_natCast] at magnitude
    have cast : ((2 ^ power : Nat) : Int) = 2 ^ power := Nat.cast_pow 2 power
    have whole : count / format.one ≤ 2 ^ power ↔ count < (2 ^ power + 1) * format.one := by
      rw [← Nat.lt_succ_iff, Nat.div_lt_iff_lt_mul BinaryFormat.one_pos]
    rw [neg_natCast_tdiv, Int.neg_mul, Int.neg_le_neg_iff, Int.neg_le_neg_iff, ← cast,
      ← Int.natCast_mul, Int.ofNat_le, Int.ofNat_le, whole, magnitude]
    constructor
    · intro within
      have positive := @BinaryFormat.one_pos format
      rw [Nat.succ_mul]
      omega
    · exact BinaryFormat.units_le_of_lt full

end Bounds

variable {datum : Binary format} {number : Int}

/-- An integer part within bounds is that of a finite datum between them. -/
theorem truncateWithin?_eq_some {lower upper : Int} :
    datum.truncateWithin? lower upper = some number ↔
      ∃ scaled, datum.scaled? = some scaled ∧ lower * format.one ≤ scaled ∧
        scaled < upper * format.one ∧ scaled.tdiv format.one = number := by
  rw [truncateWithin?]
  cases datum.scaled? with
  | none => simp
  | some scaled => simp [and_assoc]

/-- The truncated number of a finite datum is its count divided by that of one. -/
theorem toRat?_of_scaled? (exponents : 2 ≤ format.exponentBits) {scaled : Int}
    (finite : datum.scaled? = some scaled) :
    datum.toRat? = some ((scaled : ℚ) / format.one) ∧
      truncated ((scaled : ℚ) / format.one) = scaled.tdiv format.one := by
  rw [toRat?_eq exponents, finite, Option.map_some]
  exact ⟨rfl, truncated_div scaled BinaryFormat.one_pos⟩

/-- A finite datum has a count. -/
theorem exists_scaled?_of_toRat? (exponents : 2 ≤ format.exponentBits) {exact : ℚ}
    (finite : datum.toRat? = some exact) :
    ∃ scaled, datum.scaled? = some scaled ∧ exact = (scaled : ℚ) / format.one := by
  rw [toRat?_eq exponents, Option.map_eq_some_iff] at finite
  obtain ⟨scaled, found, same⟩ := finite
  exact ⟨scaled, found, same.symm⟩

/-- The integer parts between minus a power of two for which the fraction field is full and that
power are those of the data whose truncated number lies there. -/
theorem truncateWithin?_signed (exponents : 2 ≤ format.exponentBits) {power : Nat}
    (full : format.fractionBits ≤ power) :
    datum.truncateWithin? (-2 ^ power) (2 ^ power) = some number ↔
      (∃ exact, datum.toRat? = some exact ∧ truncated exact = number) ∧
        -2 ^ power ≤ number ∧ number < 2 ^ power := by
  have room : (0 : Int) < 2 ^ power := Int.pow_pos (by decide)
  rw [truncateWithin?_eq_some]
  constructor
  · rintro ⟨scaled, finite, low, high, rfl⟩
    obtain ⟨pattern, magnitude⟩ := exists_units_of_scaled? finite
    obtain ⟨exact, same⟩ := toRat?_of_scaled? exponents finite
    exact ⟨⟨_, exact, same⟩, (neg_mul_le_iff_le_tdiv full magnitude).mp low,
      (lt_mul_iff_tdiv_lt room).mp high⟩
  · rintro ⟨⟨exact, found, rfl⟩, low, high⟩
    obtain ⟨scaled, finite, rfl⟩ := exists_scaled?_of_toRat? exponents found
    obtain ⟨pattern, magnitude⟩ := exists_units_of_scaled? finite
    rw [(toRat?_of_scaled? exponents finite).2] at low high ⊢
    exact ⟨scaled, finite, (neg_mul_le_iff_le_tdiv full magnitude).mpr low,
      (lt_mul_iff_tdiv_lt room).mpr high, rfl⟩

/-- The integer parts from zero to a power of two are those of the data that are not below zero and
whose truncated number lies below the power. -/
theorem truncateWithin?_unsigned (exponents : 2 ≤ format.exponentBits) {power : Nat} :
    datum.truncateWithin? 0 (2 ^ power) = some number ↔
      (∃ exact, datum.toRat? = some exact ∧ 0 ≤ exact ∧ truncated exact = number) ∧
        number < 2 ^ power := by
  have room : (0 : Int) < 2 ^ power := Int.pow_pos (by decide)
  have one : (0 : ℚ) < format.one := Nat.cast_pos.mpr BinaryFormat.one_pos
  have sign : ∀ scaled : Int, 0 ≤ (scaled : ℚ) / format.one ↔ 0 * (format.one : Int) ≤ scaled := by
    intro scaled
    rw [Int.zero_mul, le_div_iff₀ one, zero_mul, Int.cast_nonneg_iff]
  rw [truncateWithin?_eq_some]
  constructor
  · rintro ⟨scaled, finite, low, high, rfl⟩
    obtain ⟨exact, same⟩ := toRat?_of_scaled? exponents finite
    exact ⟨⟨_, exact, (sign scaled).mpr low, same⟩, (lt_mul_iff_tdiv_lt room).mp high⟩
  · rintro ⟨⟨exact, found, low, rfl⟩, high⟩
    obtain ⟨scaled, finite, rfl⟩ := exists_scaled?_of_toRat? exponents found
    rw [(toRat?_of_scaled? exponents finite).2] at high ⊢
    exact ⟨scaled, finite, (sign scaled).mp low, (lt_mul_iff_tdiv_lt room).mpr high, rfl⟩

/-- An integer that fills the fraction field to the units place of a power of two is the number of
a datum only if it is a multiple of that power. -/
theorem dvd_of_toRat? (exponents : 2 ≤ format.exponentBits) {power whole : Nat}
    (found : datum.toRat? = some (whole : ℚ)) (large : 2 ^ (format.fractionBits + power) ≤ whole) :
    2 ^ power ∣ whole := by
  have one : (format.one : ℚ) ≠ 0 := Nat.cast_ne_zero.mpr BinaryFormat.one_pos.ne'
  obtain ⟨scaled, finite, same⟩ := exists_scaled?_of_toRat? exponents found
  obtain ⟨pattern, magnitude⟩ := exists_units_of_scaled? finite
  rw [eq_div_iff one, ← Nat.cast_mul, ← Int.cast_natCast, Int.cast_inj] at same
  have units : format.units pattern = whole * format.one := by
    rw [← magnitude, ← same, Int.natAbs_natCast]
  have multiple := @BinaryFormat.dvd_units format pattern power
  rw [units] at multiple
  exact Nat.dvd_of_mul_dvd_mul_right BinaryFormat.one_pos
    (multiple (Nat.mul_le_mul_right _ large))

end Binary

end TypedRecord
