import TypedRecord.Binary.Basic

/-!
# Exact binary numbers

A count of smallest magnitudes that needs no more digits than the fraction field has room for is the
magnitude of one pattern, and rounding a quotient that equals such a count is exact. So a datum
survives its word, the conversion to its own format and the way through a wider format and back.
-/
namespace TypedRecord

namespace BinaryFormat

variable {format source target : BinaryFormat}

/-- There are magnitudes between neighbouring powers of two. -/
theorem binade_pos : 0 < format.binade := Nat.two_pow_pos _

/-- One is a positive count of smallest magnitudes. -/
theorem one_pos : 0 < format.one := Nat.two_pow_pos _

/-- The power of two that the last digit of a count stands for when the fraction field is full. -/
def shift (format : BinaryFormat) (units : Nat) : Nat := Nat.log2 units - format.fractionBits

/-- Whether the fraction field has room for all digits of a count. -/
def Holds (format : BinaryFormat) (units : Nat) : Prop := 2 ^ format.shift units ∣ units

/-- The pattern of a count that the fraction field has room for. -/
def patternOf (format : BinaryFormat) (units : Nat) : Nat :=
  format.shift units * format.binade + units / 2 ^ format.shift units

/-- A count below two binades is not shifted. -/
theorem shift_of_lt {units : Nat} (small : units < 2 * format.binade) : format.shift units = 0 := by
  have bound : units < 2 ^ (format.fractionBits + 1) := by
    rw [Nat.pow_succ, Nat.mul_comm]
    exact small
  by_cases zero : units = 0
  · simp [shift, zero, Nat.log2_zero]
  · have log := (Nat.log2_lt zero).mpr bound
    simp only [shift]
    omega

/-- A count of `significand` shifted by a power, with a full fraction field. -/
theorem shift_mul_pow {significand : Nat} (low : format.binade ≤ significand)
    (high : significand < 2 * format.binade) (power : Nat) :
    format.shift (significand * 2 ^ power) = power := by
  have positive : 0 < significand * 2 ^ power :=
    Nat.mul_pos (Nat.lt_of_lt_of_le binade_pos low) (Nat.two_pow_pos _)
  have atLeast : format.fractionBits + power ≤ Nat.log2 (significand * 2 ^ power) := by
    rw [Nat.le_log2 (by omega), Nat.pow_add]
    exact Nat.mul_le_mul_right _ low
  have below : Nat.log2 (significand * 2 ^ power) < format.fractionBits + power + 1 := by
    rw [Nat.log2_lt (by omega), show format.fractionBits + power + 1 =
      format.fractionBits + 1 + power by omega, Nat.pow_add]
    refine Nat.mul_lt_mul_of_pos_right ?_ (Nat.two_pow_pos _)
    rw [Nat.pow_succ, Nat.mul_comm]
    exact high
  simp only [shift]
  omega

/-- The magnitude of a pattern below two binades is the pattern. -/
theorem units_of_lt {pattern : Nat} (small : pattern < 2 * format.binade) :
    format.units pattern = pattern := by
  have quotient : pattern / format.binade < 2 := Nat.div_lt_of_lt_mul (by omega)
  have division := Nat.div_add_mod pattern format.binade
  simp only [units]
  split
  · next zero =>
    rw [zero, Nat.mul_zero, Nat.zero_add] at division
    exact division
  · next nonzero =>
    have first : pattern / format.binade = 1 := by
      have positive := Nat.pos_of_ne_zero nonzero
      omega
    rw [first, Nat.mul_one] at division
    rw [first, Nat.sub_self, Nat.pow_zero, Nat.mul_one, division]

/-- The magnitude of a pattern in a higher binade is a full significand, shifted. -/
theorem units_normal (power : Nat) {significand : Nat} (low : format.binade ≤ significand)
    (high : significand < 2 * format.binade) :
    format.units (power * format.binade + significand) = significand * 2 ^ power := by
  have split : power * format.binade + significand =
      (significand - format.binade) + format.binade * (power + 1) := by
    rw [Nat.mul_succ, Nat.mul_comm]
    omega
  have small : significand - format.binade < format.binade := by omega
  have quotient : (power * format.binade + significand) / format.binade = power + 1 := by
    rw [split, Nat.add_mul_div_left _ _ binade_pos, Nat.div_eq_of_lt small, Nat.zero_add]
  have remainder : (power * format.binade + significand) % format.binade =
      significand - format.binade := by
    rw [split, Nat.add_mul_mod_self_left, Nat.mod_eq_of_lt small]
  simp only [units, quotient, remainder]
  rw [if_neg (Nat.succ_ne_zero power), Nat.add_sub_cancel, Nat.add_sub_cancel' low]

/-- A pattern from two binades on is a full significand in a higher binade. -/
theorem exists_significand {pattern : Nat} (large : 2 * format.binade ≤ pattern) :
    ∃ power significand, format.binade ≤ significand ∧ significand < 2 * format.binade ∧
      pattern = power * format.binade + significand := by
  refine ⟨pattern / format.binade - 1, format.binade + pattern % format.binade, by omega, ?_, ?_⟩
  · have := Nat.mod_lt pattern (@binade_pos format)
    omega
  · have quotient : 2 ≤ pattern / format.binade := (Nat.le_div_iff_mul_le binade_pos).mpr large
    have division := Nat.div_add_mod' pattern format.binade
    obtain ⟨power, exponent⟩ := Nat.exists_eq_add_of_le' (show 1 ≤ pattern / format.binade by omega)
    rw [exponent, Nat.add_sub_cancel]
    rw [exponent, Nat.succ_mul] at division
    omega

/-- The magnitude of every pattern has room in the fraction field. -/
theorem holds_units (pattern : Nat) : format.Holds (format.units pattern) := by
  by_cases small : pattern < 2 * format.binade
  · rw [Holds, units_of_lt small, shift_of_lt small, Nat.pow_zero]
    exact Nat.one_dvd _
  · obtain ⟨power, significand, low, high, rfl⟩ := exists_significand (Nat.le_of_not_lt small)
    rw [Holds, units_normal power low high, shift_mul_pow low high]
    exact Nat.dvd_mul_left _ _

/-- A pattern is the pattern of its magnitude. -/
theorem patternOf_units (pattern : Nat) : format.patternOf (format.units pattern) = pattern := by
  by_cases small : pattern < 2 * format.binade
  · rw [patternOf, units_of_lt small, shift_of_lt small, Nat.zero_mul, Nat.zero_add, Nat.pow_zero,
      Nat.div_one]
  · obtain ⟨power, significand, low, high, rfl⟩ := exists_significand (Nat.le_of_not_lt small)
    rw [patternOf, units_normal power low high, shift_mul_pow low high,
      Nat.mul_div_cancel _ (Nat.two_pow_pos _)]

/-- A count is its significand, shifted, and the significand has one digit more than the fraction
field. -/
theorem significand_lt (units : Nat) : units / 2 ^ format.shift units < 2 * format.binade := by
  by_cases zero : units = 0
  · subst zero
    rw [Nat.zero_div]
    exact Nat.mul_pos (by decide) binade_pos
  · rw [Nat.div_lt_iff_lt_mul (Nat.two_pow_pos _)]
    have below : units < 2 ^ (Nat.log2 units + 1) := Nat.lt_log2_self
    have room : Nat.log2 units + 1 ≤ format.fractionBits + 1 + format.shift units := by
      simp only [shift]
      omega
    calc
      units < 2 ^ (Nat.log2 units + 1) := below
      _ ≤ 2 ^ (format.fractionBits + 1 + format.shift units) :=
        Nat.pow_le_pow_right (by decide) room
      _ = 2 * format.binade * 2 ^ format.shift units := by
        rw [binade, Nat.pow_add, Nat.pow_succ, Nat.mul_comm 2]

/-- The magnitude of the pattern of a count that has room is the count. -/
theorem units_patternOf {units : Nat} (holds : format.Holds units) :
    format.units (format.patternOf units) = units := by
  by_cases small : units < 2 * format.binade
  · rw [patternOf, shift_of_lt small, Nat.zero_mul, Nat.zero_add, Nat.pow_zero, Nat.div_one,
      units_of_lt small]
  · have shifted : Nat.log2 units = format.fractionBits + format.shift units := by
      have large : format.fractionBits + 1 ≤ Nat.log2 units := by
        rw [Nat.le_log2 (by have := @binade_pos format; omega), Nat.pow_succ,
          Nat.mul_comm]
        exact Nat.le_of_not_lt small
      simp only [shift]
      omega
    have low : format.binade ≤ units / 2 ^ format.shift units := by
      rw [Nat.le_div_iff_mul_le (Nat.two_pow_pos _), binade, ← Nat.pow_add, ← shifted]
      exact Nat.log2_self_le (by have := @binade_pos format; omega)
    rw [patternOf, units_normal _ low (significand_lt units), Nat.div_mul_cancel holds]

/-- A count with a short significand is shifted by no more than the significand. -/
theorem shift_mul_pow_le {significand : Nat} (high : significand < 2 * format.binade)
    (power : Nat) : format.shift (significand * 2 ^ power) ≤ power := by
  by_cases zero : significand * 2 ^ power = 0
  · simp [shift, zero, Nat.log2_zero]
  · have bound : significand * 2 ^ power < 2 ^ (format.fractionBits + 1 + power) := by
      rw [Nat.pow_add]
      refine Nat.mul_lt_mul_of_pos_right ?_ (Nat.two_pow_pos _)
      rw [Nat.pow_succ, Nat.mul_comm]
      exact high
    have log := (Nat.log2_lt zero).mpr bound
    simp only [shift]
    omega

/-- The fraction field has room for a short significand, however far it is shifted. -/
theorem holds_mul_pow {significand : Nat} (high : significand < 2 * format.binade) (power : Nat) :
    format.Holds (significand * 2 ^ power) :=
  Nat.dvd_trans (Nat.pow_dvd_pow 2 (shift_mul_pow_le high power)) (Nat.dvd_mul_left _ _)

/-- The pattern of a count that is shifted by less than the exponent field can say is finite. -/
theorem patternOf_lt {units : Nat} (row : format.shift units + 2 < 2 ^ format.exponentBits) :
    format.patternOf units < format.infinity := by
  have significand := format.significand_lt units
  have rows : format.shift units + 2 ≤ 2 ^ format.exponentBits - 1 := by omega
  calc
    format.patternOf units < (format.shift units + 2) * format.binade := by
      rw [patternOf, Nat.add_mul]
      exact Nat.add_lt_add_left significand _
    _ ≤ format.infinity := Nat.mul_le_mul_right _ rows

/-- A quotient that is a whole number is rounded to that number. -/
theorem roundHalfEven_mul (number : Nat) {denominator : Nat} (positive : 0 < denominator) :
    roundHalfEven (number * denominator) denominator = number := by
  simp only [roundHalfEven, Nat.mul_mod_left, Nat.mul_div_cancel _ positive]
  rw [if_pos (.inl positive)]

/-- A quotient that equals a count with room is rounded to the pattern of that count. -/
theorem nearest_eq {numerator denominator units : Nat} (positive : 0 < denominator)
    (holds : format.Holds units) (exact : numerator * format.one = units * denominator) :
    format.nearest numerator denominator = min (format.patternOf units) format.infinity := by
  have quotient : numerator * format.one / denominator = units := by
    rw [exact, Nat.mul_div_cancel _ positive]
  have shifted : Nat.log2 units - format.fractionBits = format.shift units := rfl
  -- The denominator takes the shift over, and what is left of the count is its significand.
  have significand : units * denominator =
      units / 2 ^ format.shift units * (denominator * 2 ^ format.shift units) := by
    rw [Nat.mul_comm denominator, ← Nat.mul_assoc, Nat.div_mul_cancel holds]
  simp only [nearest, quotient, shifted]
  rw [exact, significand, roundHalfEven_mul _ (Nat.mul_pos positive (Nat.two_pow_pos _))]
  rfl

/-- A quotient that equals the magnitude of a pattern up to infinity is rounded to the pattern. -/
theorem nearest_units {numerator denominator pattern : Nat} (positive : 0 < denominator)
    (fits : pattern ≤ format.infinity)
    (exact : numerator * format.one = format.units pattern * denominator) :
    format.nearest numerator denominator = pattern := by
  rw [nearest_eq positive (holds_units pattern) exact, patternOf_units, Nat.min_eq_left fits]

/-- Infinity is followed by one binade of patterns that are no numbers, up to the sign bit. -/
theorem signWeight_eq : format.signWeight = format.infinity + format.binade := by
  have rows : 0 < 2 ^ format.exponentBits := Nat.two_pow_pos _
  rw [signWeight, infinity, Nat.pow_add, binade, ← Nat.succ_mul, Nat.succ_eq_add_one,
    Nat.sub_add_cancel rows, Nat.mul_comm]

/-- Whether every finite datum of a format is one of another format. -/
structure Widens (source target : BinaryFormat) : Prop where
  /-- The exponent field says more than zero and infinity. -/
  exponents : 2 ≤ source.exponentBits
  /-- The fraction field is no narrower. -/
  fraction : source.fractionBits ≤ target.fractionBits
  /-- The smallest magnitude is no larger. -/
  depth : source.depth ≤ target.depth
  /-- The largest finite magnitude is no smaller. -/
  range : 2 ^ source.exponentBits + (target.depth - source.depth) ≤ 2 ^ target.exponentBits

/-- Every 32-bit datum is a 64-bit one. -/
theorem single_widens_double : Widens single double := by
  constructor <;> decide

/-- A finite magnitude is a significand, shifted by less than the exponent field can say. -/
theorem exists_units_eq (exponents : 2 ≤ format.exponentBits) {pattern : Nat}
    (finite : pattern < format.infinity) :
    ∃ significand power, significand < 2 * format.binade ∧
      power + 2 < 2 ^ format.exponentBits ∧ format.units pattern = significand * 2 ^ power := by
  by_cases small : pattern < 2 * format.binade
  · have rows : 2 ^ 2 ≤ 2 ^ format.exponentBits := Nat.pow_le_pow_right (by decide) exponents
    exact ⟨pattern, 0, small, by omega, by rw [units_of_lt small, Nat.pow_zero, Nat.mul_one]⟩
  · obtain ⟨power, significand, low, high, rfl⟩ := exists_significand (Nat.le_of_not_lt small)
    have rows : (power + 1) * format.binade < (2 ^ format.exponentBits - 1) * format.binade := by
      rw [Nat.succ_mul]
      exact Nat.lt_of_le_of_lt (Nat.add_le_add_left low _) finite
    have row := Nat.lt_of_mul_lt_mul_right rows
    exact ⟨significand, power, high, by omega, units_normal power low high⟩

/-- The magnitude of a pattern counted in the smallest magnitudes of a wider format. -/
def widened (source target : BinaryFormat) (pattern : Nat) : Nat :=
  source.units pattern * 2 ^ (target.depth - source.depth)

/-- One of a wider format counts as many smallest magnitudes more. -/
theorem Widens.one_eq (widens : Widens source target) :
    source.one * 2 ^ (target.depth - source.depth) = target.one := by
  rw [one, one, ← Nat.pow_add, Nat.add_sub_cancel' widens.depth]

/-- A wider format has room for every finite magnitude, and shifts it less than its exponent field
can say. -/
theorem Widens.holds_widened (widens : Widens source target) {pattern : Nat}
    (finite : pattern < source.infinity) :
    target.Holds (source.widened target pattern) ∧
      target.shift (source.widened target pattern) + 2 < 2 ^ target.exponentBits := by
  obtain ⟨significand, power, high, row, units⟩ := exists_units_eq widens.exponents finite
  have count : source.widened target pattern =
      significand * 2 ^ (power + (target.depth - source.depth)) := by
    rw [widened, units, Nat.mul_assoc, ← Nat.pow_add]
  have short : significand < 2 * target.binade :=
    Nat.lt_of_lt_of_le high
      (Nat.mul_le_mul_left _ (Nat.pow_le_pow_right (by decide) widens.fraction))
  have shifted := shift_mul_pow_le short (power + (target.depth - source.depth))
  rw [count]
  exact ⟨holds_mul_pow short _, by have range := widens.range; omega⟩

/-- A whole number with a short significand is rounded to a pattern of its own magnitude. -/
theorem units_nearest {significand power : Nat} (high : significand < 2 * format.binade)
    (row : power + format.depth + 2 < 2 ^ format.exponentBits) :
    format.units (format.nearest (significand * 2 ^ power) 1) =
      significand * 2 ^ power * format.one := by
  have count : significand * 2 ^ power * format.one = significand * 2 ^ (power + format.depth) := by
    rw [one, Nat.mul_assoc, ← Nat.pow_add]
  have shifted : format.shift (significand * 2 ^ (power + format.depth)) + 2 <
      2 ^ format.exponentBits := by
    have := shift_mul_pow_le high (power + format.depth)
    omega
  have holds := holds_mul_pow high (power + format.depth)
  have exact : significand * 2 ^ power * format.one =
      significand * 2 ^ (power + format.depth) * 1 := by rw [count, Nat.mul_one]
  rw [nearest_eq Nat.one_pos holds exact, Nat.min_eq_left (Nat.le_of_lt (patternOf_lt shifted)),
    units_patternOf holds, count]

/-- Zero is rounded to zero. -/
theorem nearest_zero (denominator : Nat) : format.nearest 0 denominator = 0 := by
  have rounded : ∀ other, roundHalfEven 0 other = 0 := fun other => by
    have down : 2 * (0 % other) < other ∨ 2 * (0 % other) = other ∧ 0 / other % 2 = 0 := by
      rw [Nat.zero_mod, Nat.zero_div]
      omega
    rw [roundHalfEven, if_pos down, Nat.zero_div]
  simp [nearest, rounded, Nat.log2_zero]

/-- What is rounded depends on the quotient only. -/
theorem roundHalfEven_mul_mul (numerator denominator : Nat) {factor : Nat} (positive : 0 < factor) :
    roundHalfEven (numerator * factor) (denominator * factor) =
      roundHalfEven numerator denominator := by
  have less : 2 * (numerator % denominator * factor) < denominator * factor ↔
      2 * (numerator % denominator) < denominator := by
    rw [← Nat.mul_assoc, Nat.mul_lt_mul_right positive]
  have same : 2 * (numerator % denominator * factor) = denominator * factor ↔
      2 * (numerator % denominator) = denominator := by
    rw [← Nat.mul_assoc, Nat.mul_left_inj (Nat.ne_of_gt positive)]
  simp only [roundHalfEven, Nat.mul_div_mul_right _ _ positive, Nat.mul_mod_mul_right, less, same]

/-- The nearest pattern depends on the quotient only. -/
theorem nearest_mul_mul (numerator denominator : Nat) {factor : Nat} (positive : 0 < factor) :
    format.nearest (numerator * factor) (denominator * factor) =
      format.nearest numerator denominator := by
  have scaled : numerator * factor * format.one = numerator * format.one * factor :=
    Nat.mul_right_comm _ _ _
  simp only [nearest, scaled, Nat.mul_div_mul_right _ _ positive,
    Nat.mul_right_comm denominator factor, roundHalfEven_mul_mul _ _ positive]

end BinaryFormat

namespace Binary

variable {format source target : BinaryFormat}

/-- The datum of a sign and a pattern up to infinity. -/
theorem ofPattern_val (negative : Bool) (pattern : Fin (format.infinity + 1)) :
    (ofPattern negative pattern.val : Binary format) = .signed negative pattern := by
  rw [ofPattern, dif_pos pattern.isLt]

/-- A datum is read back from its word. -/
theorem ofBits_toBits (datum : Binary format) (fraction : 2 ≤ format.binade) :
    ofBits datum.toBits = datum := by
  have weight := @BinaryFormat.signWeight_eq format
  cases datum with
  | nan =>
    have half : format.infinity + format.binade / 2 < format.signWeight := by omega
    rw [toBits, ofBits, Nat.mod_eq_of_lt half, ofPattern, dif_neg (by omega)]
  | signed negative pattern =>
    have below : pattern.val < format.signWeight := by
      have := pattern.isLt
      omega
    have positive : 0 < format.signWeight := Nat.two_pow_pos _
    cases negative with
    | false =>
      rw [toBits, ofBits]
      simp only [Bool.false_eq_true, ↓reduceIte, Nat.zero_add, Nat.mod_eq_of_lt below,
        Nat.div_eq_of_lt below, Nat.zero_mod, Nat.zero_ne_one, decide_false, ofPattern_val]
    | true =>
      rw [toBits, ofBits]
      simp only [↓reduceIte, Nat.add_mod_left, Nat.mod_eq_of_lt below,
        Nat.add_div_left _ positive, Nat.div_eq_of_lt below, decide_true, ofPattern_val]

/-- A word has as many bits as its format. -/
theorem toBits_lt (datum : Binary format) : datum.toBits < 2 * format.signWeight := by
  have weight := @BinaryFormat.signWeight_eq format
  have positive := @BinaryFormat.binade_pos format
  cases datum with
  | nan =>
    rw [toBits]
    omega
  | signed negative pattern =>
    have fits := pattern.isLt
    rw [toBits]
    split <;> omega

/-- The conversion of a datum to its own format changes nothing. -/
theorem convert_self (datum : Binary format) : (datum.convert : Binary format) = datum := by
  cases datum with
  | nan => rfl
  | signed negative pattern =>
    have fits : pattern.val ≤ format.infinity := Nat.le_of_lt_succ pattern.isLt
    rw [convert]
    split
    · rw [ofRatio, BinaryFormat.nearest_units BinaryFormat.one_pos fits rfl, ofPattern_val]
    · next infinite =>
      have same : pattern.val = format.infinity := by omega
      rw [← same, ofPattern_val]

/-- A datum survives the way through a wider format and back. -/
theorem convert_convert (widens : BinaryFormat.Widens source target) (datum : Binary source) :
    ((datum.convert : Binary target).convert : Binary source) = datum ∧
      (datum.convert : Binary target).isFinite = datum.isFinite := by
  cases datum with
  | nan => exact ⟨rfl, rfl⟩
  | signed negative pattern =>
    have fits : pattern.val ≤ source.infinity := Nat.le_of_lt_succ pattern.isLt
    -- Infinity is no count of smallest magnitudes and goes to infinity by itself.
    by_cases finite : pattern.val < source.infinity
    · obtain ⟨holds, row⟩ := widens.holds_widened finite
      have bound := BinaryFormat.patternOf_lt row
      have wide : (convert (.signed negative pattern) : Binary target) =
          .signed negative ⟨target.patternOf (source.widened target pattern), by omega⟩ := by
        have exact : source.units pattern.val * target.one =
            source.widened target pattern.val * source.one := by
          rw [← widens.one_eq, BinaryFormat.widened, Nat.mul_assoc, Nat.mul_comm source.one]
        rw [convert, if_pos finite, ofRatio,
          BinaryFormat.nearest_eq BinaryFormat.one_pos holds exact,
          Nat.min_eq_left (Nat.le_of_lt bound), ofPattern, dif_pos (Nat.lt_succ_of_lt bound)]
      have back : source.nearest (target.units (target.patternOf (source.widened target pattern)))
          target.one = pattern.val := by
        apply BinaryFormat.nearest_units BinaryFormat.one_pos fits
        rw [BinaryFormat.units_patternOf holds, BinaryFormat.widened, ← widens.one_eq,
          Nat.mul_assoc, Nat.mul_comm _ source.one]
      rw [wide]
      refine ⟨?_, by simp [isFinite, bound, finite]⟩
      rw [convert, if_pos bound, ofRatio, back, ofPattern_val]
    · have same : pattern.val = source.infinity := by omega
      have wide : (convert (.signed negative pattern) : Binary target) =
          .signed negative ⟨target.infinity, Nat.lt_succ_self _⟩ := by
        rw [convert, if_neg finite, ofPattern, dif_pos (Nat.lt_succ_self _)]
      rw [wide]
      refine ⟨?_, by simp [isFinite, finite]⟩
      rw [convert, if_neg (Nat.lt_irrefl _), ← same, ofPattern_val]

end Binary

end TypedRecord
