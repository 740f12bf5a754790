import TypedRecord.Decimal.Stepwise
import TypedRecord.Proofs.Binary
import TypedRecord.Proofs.Digits

/-!
# Where reading in steps is exact

A step rounds only what the fraction field has no room for. The digits of a numeral that are few
enough are taken whole and rounded to their own number, and the first powers of ten are exact, so
only the last step rounds. Main statement: such a numeral is read as the datum nearest to it.
-/
namespace TypedRecord

namespace Digits

/-- The number that a word makes with the digits after it. -/
theorem foldl_eq (word : Nat) (digits : List Digit) :
    digits.foldl (fun number digit => 10 * number + digit.val) word =
      word * 10 ^ digits.length + value digits := by
  induction digits generalizing word with
  | nil => simp [value]
  | cons digit rest ih =>
    have first : value (digit :: rest) = digit.val * 10 ^ rest.length + value rest := by
      rw [value, List.foldl_cons, ih, Nat.mul_zero, Nat.zero_add]
    have moved : 10 * word * 10 ^ rest.length = word * (10 ^ rest.length * 10) := by
      rw [Nat.mul_comm 10, Nat.mul_assoc, Nat.mul_comm 10]
    rw [List.foldl_cons, ih, first, List.length_cons, Nat.pow_succ, Nat.add_mul, moved,
      Nat.add_assoc]

/-- All digits are taken when the number that the word makes with them has 64 bits. -/
theorem gather_of_lt {word : Nat} {digits : List Digit}
    (fits : word * 10 ^ digits.length + value digits < 2 ^ 64) :
    gather word digits = (word * 10 ^ digits.length + value digits, []) := by
  induction digits generalizing word with
  | nil => simp [gather, value]
  | cons digit rest ih =>
    have taken : word * 10 ^ (digit :: rest).length + value (digit :: rest) =
        (10 * word + digit.val) * 10 ^ rest.length + value rest := by
      rw [← foldl_eq, List.foldl_cons, foldl_eq]
    rw [taken] at fits ⊢
    have grows : 10 * word + digit.val ≤ (10 * word + digit.val) * 10 ^ rest.length :=
      Nat.le_mul_of_pos_right _ (Nat.pow_pos (by decide))
    rw [gather, if_pos (by omega), ih fits]

end Digits

namespace Stepwise

/-- A number below two to the fifty-third has its own magnitude. -/
theorem units_nearest_word {word : Nat} (short : word < 2 ^ 53) :
    BinaryFormat.double.units (BinaryFormat.double.nearest word 1) =
      word * BinaryFormat.double.one := by
  have exact := @BinaryFormat.units_nearest BinaryFormat.double word 0 short (by decide)
  rwa [Nat.pow_zero, Nat.mul_one] at exact

/-- The first powers of ten have their own magnitudes. -/
theorem units_ten {power : Nat} (near : power ≤ 22) :
    BinaryFormat.double.units (BinaryFormat.double.ten power) =
      10 ^ power * BinaryFormat.double.one := by
  have short : 5 ^ power < 2 * BinaryFormat.double.binade :=
    Nat.lt_of_le_of_lt (Nat.pow_le_pow_right (by decide) near) (by decide)
  have row : power + BinaryFormat.double.depth + 2 < 2 ^ BinaryFormat.double.exponentBits := by
    have depth : BinaryFormat.double.depth = 1074 := rfl
    have rows : 2 ^ BinaryFormat.double.exponentBits = 2048 := rfl
    omega
  have exact := BinaryFormat.units_nearest short row
  rwa [← Nat.mul_pow] at exact

/-- A short number times one of the first powers of ten is rounded once. -/
theorem product_ten {word power : Nat} (short : word < 2 ^ 53) (near : power ≤ 22) :
    BinaryFormat.double.product (BinaryFormat.double.nearest word 1)
        (BinaryFormat.double.ten power) =
      BinaryFormat.double.nearest (word * 10 ^ power) 1 := by
  have positive := Nat.mul_pos BinaryFormat.double.one_pos BinaryFormat.double.one_pos
  have product : word * BinaryFormat.double.one * (10 ^ power * BinaryFormat.double.one) =
      word * 10 ^ power * (BinaryFormat.double.one * BinaryFormat.double.one) :=
    Nat.mul_mul_mul_comm _ _ _ _
  rw [BinaryFormat.product, units_nearest_word short, units_ten near, product]
  have scaled := @BinaryFormat.nearest_mul_mul .double (word * 10 ^ power) 1 _ positive
  rwa [Nat.one_mul] at scaled

/-- A short number divided by one of the first powers of ten is rounded once. -/
theorem quotient_ten {word power : Nat} (short : word < 2 ^ 53) (near : power ≤ 22) :
    BinaryFormat.double.quotient (BinaryFormat.double.nearest word 1)
        (BinaryFormat.double.ten power) =
      BinaryFormat.double.nearest word (10 ^ power) := by
  rw [BinaryFormat.quotient, units_nearest_word short, units_ten near,
    BinaryFormat.nearest_mul_mul _ _ BinaryFormat.double.one_pos]

/-- A short number is scaled by one of the first powers of ten, up or down, in one rounding. -/
theorem scaled_eq_nearestDecimal {word : Nat} {power : Int} (short : word < 2 ^ 53)
    (near : power.natAbs ≤ 22) :
    scaled (BinaryFormat.double.nearest word 1) power =
      BinaryFormat.double.nearestDecimal word power := by
  -- Neither shortcut of the conversion is taken, except that zero needs no rounding.
  have notLarge : ¬ power > 2 ^ BinaryFormat.double.exponentBits := by
    have bound : (2 : Int) ^ BinaryFormat.double.exponentBits = 2048 := rfl
    omega
  have notSmall : ¬ (Nat.log2 word : Int) + 1 + power < -(BinaryFormat.double.depth + 1 : Int) := by
    have bound : (BinaryFormat.double.depth : Int) = 1074 := rfl
    omega
  cases power with
  | ofNat power =>
    have nearUp : power ≤ 22 := near
    rw [scaled, if_pos (Nat.le_trans nearUp (by decide)), product_ten short nearUp,
      BinaryFormat.nearestDecimal]
    by_cases zero : word = 0
    · rw [if_pos zero, zero, Nat.zero_mul, BinaryFormat.nearest_zero]
    · rw [if_neg zero, if_neg notLarge, if_neg notSmall]
  | negSucc power =>
    have nearDown : power + 1 ≤ 22 := near
    have below : power < maxPower := Nat.lt_of_lt_of_le nearDown (by decide)
    rw [scaled, Nat.div_eq_of_lt below, Nat.mod_eq_of_lt below, shrink, quotient_ten short nearDown,
      BinaryFormat.nearestDecimal]
    by_cases zero : word = 0
    · rw [if_pos zero, zero, BinaryFormat.nearest_zero]
    · rw [if_neg zero, if_neg notLarge, if_neg notSmall]

end Stepwise

namespace Numeral

/-- A numeral whose digits make a number below two to the fifty-third, and whose last digit counts
one of the powers of ten from -22 to 22, is read as the datum nearest to it. -/
theorem stepwise_eq_toBinary {numeral : Numeral} (short : numeral.coefficient < 2 ^ 53)
    (near : numeral.scale.natAbs ≤ 22) : numeral.stepwise = numeral.toBinary := by
  have whole : Digits.gather 0 (Digits.ofNat numeral.whole) = (numeral.whole, []) := by
    have below : numeral.whole ≤ numeral.whole * 10 ^ numeral.fraction.length :=
      Nat.le_mul_of_pos_right _ (Nat.pow_pos (by decide))
    have fits : numeral.whole < 2 ^ 64 := by
      rw [coefficient] at short
      omega
    rw [Digits.gather_of_lt] <;> rw [Nat.zero_mul, Nat.zero_add, Digits.value_ofNat]
    exact fits
  have word : Digits.gather numeral.whole numeral.fraction = (numeral.coefficient, []) :=
    Digits.gather_of_lt (Nat.lt_trans short (by decide))
  have power : numeral.exponent.getD 0 + (0 : Nat) - (numeral.fraction.length - 0 : Nat) =
      numeral.scale := by
    rw [Int.natCast_zero, Int.add_zero, Nat.sub_zero, scale]
  simp only [stepwise, whole, word, List.length_nil, power]
  rw [Stepwise.scaled_eq_nearestDecimal short near]
  rfl

end Numeral

end TypedRecord
