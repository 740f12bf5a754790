import TypedRecord.Proofs.Rationals

/-!
# Integers out of values

A value that is a number is an integer or a rational number, exactly. A coercion to integers of a
width gives the number truncated toward zero when that lies in the range of the width, and nothing
otherwise; to an unsigned integer a number below zero is refused even if it is truncated to zero.
Main statements: so it is for each width and for the bytes of a list, whatever the value; and a
signed and an unsigned coercion give the same number in the range that they share, but for zero out
of a fraction below it.
-/
namespace TypedRecord

/-! ### Numbers in range -/

/-- What is made in a range and gives a number gives that number in that range and no other. -/
theorem guarded_map_eq_some {α γ : Type} {within : Prop} [Decidable within] {made : α}
    {toNumber : α → γ} {number result : γ} (gives : within → toNumber made = number) :
    (if within then some made else none).map toNumber = some result ↔
      number = result ∧ within := by
  split
  · next inside => rw [Option.map_some, Option.some_inj, gives inside, and_iff_left inside]
  · next outside => simp [outside]

/-- A signed 64-bit integer is made of its number, in its range. -/
theorem int64?_map_eq_some {number result : Int} :
    (int64? number).map Int64.toInt = some result ↔
      number = result ∧ -2 ^ 63 ≤ result ∧ result < 2 ^ 63 := by
  rw [int64?, guarded_map_eq_some fun within => Int64.toInt_ofInt_of_le (by omega) (by omega)]
  omega

/-- A signed 32-bit integer is made of its number, in its range. -/
theorem int32?_map_eq_some {number result : Int} :
    (int32? number).map Int32.toInt = some result ↔
      number = result ∧ -2 ^ 31 ≤ result ∧ result < 2 ^ 31 := by
  rw [int32?, guarded_map_eq_some fun within => Int32.toInt_ofInt_of_le (by omega) (by omega)]
  omega

/-- An unsigned 64-bit integer is made of its number, in its range. -/
theorem uint64?_map_eq_some {number : Int} {result : Nat} :
    (uint64? number).map UInt64.toNat = some result ↔ number = result ∧ result < 2 ^ 64 := by
  rw [uint64?, guarded_map_eq_some fun within => UInt64.toNat_ofNat_of_lt' within.2]
  omega

/-- An unsigned 32-bit integer is made of its number, in its range. -/
theorem uint32?_map_eq_some {number result : Nat} :
    (uint32? number).map UInt32.toNat = some result ↔ number = result ∧ result < 2 ^ 32 := by
  rw [uint32?, guarded_map_eq_some fun within : number < 2 ^ 32 => UInt32.toNat_ofNat_of_lt' within]
  omega

/-- A byte is made of its number, in its range. -/
theorem uint8?_map_eq_some {number result : Nat} :
    (uint8? number).map UInt8.toNat = some result ↔ number = result ∧ result < 2 ^ 8 := by
  rw [uint8?, guarded_map_eq_some fun within : number < 2 ^ 8 => UInt8.toNat_ofNat_of_lt' within]
  omega

/-- What is read wide and then made narrow is a number in the narrow range that is read wide. -/
theorem bind_map_eq_some {α β γ δ : Type} {wide : Option α} {toWide : α → γ} {narrow : γ → Option β}
    {toNarrow : β → δ} {number : γ} {result : δ} {within : Prop}
    (narrows : ∀ other, (narrow other).map toNarrow = some result ↔ other = number ∧ within) :
    (wide.bind fun data => narrow (toWide data)).map toNarrow = some result ↔
      wide.map toWide = some number ∧ within := by
  cases wide with
  | none => simp
  | some data => rw [Option.bind_some, narrows, Option.map_some, Option.some_inj]

namespace Value

variable {value : Value}

/-! ### Numbers of values -/

/-- The number that a value is, if it is an integer or a finite number. -/
def number? : Value → Option ℚ
  | .int number => some number.toInt
  | .uint number => some number.toNat
  | .float number => number.toRat?
  | _ => none

/-- A value is a number that is truncated to an integer. -/
def TruncatesTo (value : Value) (result : Int) : Prop :=
  ∃ exact, value.number? = some exact ∧ truncated exact = result

/-- A value is a number not below zero that is truncated to an integer. -/
def CountsTo (value : Value) (result : Nat) : Prop :=
  ∃ exact, value.number? = some exact ∧ 0 ≤ exact ∧ truncated exact = result

/-- A signed integer is truncated to itself. -/
theorem truncatesTo_int {number : Int64} {result : Int} :
    (Value.int number).TruncatesTo result ↔ number.toInt = result := by
  simp only [TruncatesTo, number?, Option.some_inj, exists_eq_left', truncated_intCast]

/-- An unsigned integer is truncated to itself. -/
theorem truncatesTo_uint {number : UInt64} {result : Int} :
    (Value.uint number).TruncatesTo result ↔ (number.toNat : Int) = result := by
  simp only [TruncatesTo, number?, Option.some_inj, exists_eq_left', ← Int.cast_natCast (R := ℚ),
    truncated_intCast]

/-- A signed integer that is not below zero counts itself. -/
theorem countsTo_int {number : Int64} {result : Nat} :
    (Value.int number).CountsTo result ↔ number.toInt = result := by
  simp only [CountsTo, number?, Option.some_inj, exists_eq_left', truncated_intCast,
    Int.cast_nonneg_iff, and_iff_right_iff_imp]
  omega

/-- An unsigned integer counts itself. -/
theorem countsTo_uint {number : UInt64} {result : Nat} :
    (Value.uint number).CountsTo result ↔ number.toNat = result := by
  simp only [CountsTo, number?, Option.some_inj, exists_eq_left', ← Int.cast_natCast (R := ℚ),
    truncated_intCast, Int.cast_nonneg_iff, Int.natCast_nonneg, true_and, Int.natCast_inj]

/-! ### Coercions to integers -/

/-- A value is read as a signed integer when its truncated number is in range. -/
theorem toInt64?_map_eq_some {result : Int} :
    value.toInt64?.map Int64.toInt = some result ↔
      value.TruncatesTo result ∧ -2 ^ 63 ≤ result ∧ result < 2 ^ 63 := by
  cases value with
  | int number =>
    rw [toInt64?, Option.map_some, Option.some_inj, truncatesTo_int]
    constructor
    · rintro rfl
      exact ⟨rfl, number.le_toInt, number.toInt_lt⟩
    · exact And.left
  | uint number => rw [toInt64?, int64?_map_eq_some, truncatesTo_uint]
  | float number =>
    have narrow := @bind_map_eq_some _ _ _ _ (number.truncateWithin? (-2 ^ 63) (2 ^ 63)) id
      int64? Int64.toInt result result _ fun _ => int64?_map_eq_some
    have bounds := @Binary.truncateWithin?_signed _ number result (by decide) 63 (by decide)
    rw [toInt64?]
    refine narrow.trans ?_
    rw [Option.map_id_fun, id_eq, bounds, TruncatesTo, number?]
    tauto
  | _ => simp [toInt64?, TruncatesTo, number?]

/-- A value is read as an unsigned integer when it is not below zero and its truncated number is in
range. -/
theorem toUInt64?_map_eq_some {result : Nat} :
    value.toUInt64?.map UInt64.toNat = some result ↔ value.CountsTo result ∧ result < 2 ^ 64 := by
  cases value with
  | uint number =>
    rw [toUInt64?, Option.map_some, Option.some_inj, countsTo_uint]
    constructor
    · rintro rfl
      exact ⟨rfl, number.toNat_lt⟩
    · exact And.left
  | int number => rw [toUInt64?, uint64?_map_eq_some, countsTo_int]
  | float number =>
    have narrow := @bind_map_eq_some _ _ _ _ (number.truncateWithin? 0 (2 ^ 64)) id
      uint64? UInt64.toNat result result _ fun _ => uint64?_map_eq_some
    have bounds := @Binary.truncateWithin?_unsigned _ number result (by decide) 64
    rw [toUInt64?]
    refine narrow.trans ?_
    rw [Option.map_id_fun, id_eq, bounds, CountsTo, number?, and_assoc, and_congr_right_iff]
    intro _
    omega
  | _ => simp [toUInt64?, CountsTo, number?]

/-- A value is read as a signed integer of 32 bits when its truncated number is in that range. -/
theorem toInt32?_map_eq_some {result : Int} :
    value.toInt32?.map Int32.toInt = some result ↔
      value.TruncatesTo result ∧ -2 ^ 31 ≤ result ∧ result < 2 ^ 31 := by
  rw [toInt32?, bind_map_eq_some fun _ => int32?_map_eq_some, toInt64?_map_eq_some, and_assoc,
    and_congr_right_iff]
  intro _
  omega

/-- A value is read as an unsigned integer of 32 bits when it is not below zero and its truncated
number is in that range. -/
theorem toUInt32?_map_eq_some {result : Nat} :
    value.toUInt32?.map UInt32.toNat = some result ↔ value.CountsTo result ∧ result < 2 ^ 32 := by
  rw [toUInt32?, bind_map_eq_some fun _ => uint32?_map_eq_some, toUInt64?_map_eq_some, and_assoc,
    and_congr_right_iff]
  intro _
  omega

/-- A value is read as a byte when it is not below zero and its truncated number is in that range.
-/
theorem toByte?_map_eq_some {result : Nat} :
    value.toByte?.map UInt8.toNat = some result ↔ value.CountsTo result ∧ result < 2 ^ 8 := by
  rw [toByte?, bind_map_eq_some fun _ => uint8?_map_eq_some, toUInt64?_map_eq_some, and_assoc,
    and_congr_right_iff]
  intro _
  omega

/-- A value is read as a byte when it is not below zero and is truncated to its number. -/
theorem toByte?_eq_some {byte : UInt8} : value.toByte? = some byte ↔ value.CountsTo byte.toNat := by
  have range := byte.toNat_lt
  have same := @toByte?_map_eq_some value byte.toNat
  rw [Option.map_eq_some_iff] at same
  constructor
  · intro read
    exact (same.mp ⟨byte, read, rfl⟩).1
  · intro counts
    obtain ⟨other, read, equal⟩ := same.mpr ⟨counts, range⟩
    rwa [← UInt8.toNat_inj.mp equal]

/-- The bytes of a list are those of its items. -/
theorem toBytes?_list {items : List Value} {bytes : List UInt8} :
    (Value.list items).toBytes? = some bytes ↔
      List.Forall₂ (fun (item : Value) byte => item.CountsTo (UInt8.toNat byte)) items bytes := by
  rw [toBytes?]
  induction items generalizing bytes with
  | nil => simp [eq_comm]
  | cons item rest ih =>
    have split : ∀ bytes, (item :: rest).mapM toByte? = some bytes ↔
        ∃ byte later, item.toByte? = some byte ∧ rest.mapM toByte? = some later ∧
          bytes = byte :: later := by
      intro bytes
      rw [List.mapM_cons]
      cases item.toByte? <;> cases rest.mapM toByte? <;> simp [eq_comm]
    rw [split, List.forall₂_cons_left_iff]
    simp only [toByte?_eq_some, ih, exists_and_left]

/-- Every coercion to integers is exact: a value is read as a number exactly when it is an integer
or a finite number, truncated toward zero to that number, and the number lies in the range of the
width; for an unsigned integer or a byte it must not be below zero even before it is truncated. The
bounds against which a finite number is compared admit the very numbers whose truncated number fits,
although neither the largest signed integer nor the largest unsigned one is a number of the
format. -/
theorem integers_exact (value : Value) :
    (∀ result, value.toInt64?.map Int64.toInt = some result ↔
        value.TruncatesTo result ∧ -2 ^ 63 ≤ result ∧ result < 2 ^ 63) ∧
      (∀ result, value.toInt32?.map Int32.toInt = some result ↔
        value.TruncatesTo result ∧ -2 ^ 31 ≤ result ∧ result < 2 ^ 31) ∧
      (∀ result, value.toUInt64?.map UInt64.toNat = some result ↔
        value.CountsTo result ∧ result < 2 ^ 64) ∧
      (∀ result, value.toUInt32?.map UInt32.toNat = some result ↔
        value.CountsTo result ∧ result < 2 ^ 32) ∧
      (∀ result, value.toByte?.map UInt8.toNat = some result ↔
        value.CountsTo result ∧ result < 2 ^ 8) ∧
      (∀ items bytes, (Value.list items).toBytes? = some bytes ↔
        List.Forall₂ (fun (item : Value) byte => item.CountsTo (UInt8.toNat byte)) items bytes) ∧
      ∀ number : Double,
        ((number.truncateWithin? (-2 ^ 63) (2 ^ 63)).isSome ↔ ∃ exact,
          number.toRat? = some exact ∧ -2 ^ 63 ≤ truncated exact ∧ truncated exact < 2 ^ 63) ∧
        ((number.truncateWithin? 0 (2 ^ 64)).isSome ↔ ∃ exact,
          number.toRat? = some exact ∧ 0 ≤ exact ∧ truncated exact < 2 ^ 64) ∧
        number.toRat? ≠ some ((2 ^ 63 - 1 : Nat) : ℚ) ∧
        number.toRat? ≠ some ((2 ^ 64 - 1 : Nat) : ℚ) := by
  refine ⟨fun _ => toInt64?_map_eq_some, fun _ => toInt32?_map_eq_some,
    fun _ => toUInt64?_map_eq_some, fun _ => toUInt32?_map_eq_some, fun _ => toByte?_map_eq_some,
    fun _ _ => toBytes?_list, fun number => ⟨?_, ?_, fun found => ?_, fun found => ?_⟩⟩
  · rw [Option.isSome_iff_exists]
    simp only [Binary.truncateWithin?_signed (show 2 ≤ BinaryFormat.double.exponentBits by decide)
      (show BinaryFormat.double.fractionBits ≤ 63 by decide)]
    constructor
    · rintro ⟨_, ⟨exact, found, rfl⟩, range⟩
      exact ⟨exact, found, range⟩
    · rintro ⟨exact, found, range⟩
      exact ⟨_, ⟨exact, found, rfl⟩, range⟩
  · rw [Option.isSome_iff_exists]
    simp only [Binary.truncateWithin?_unsigned
      (show 2 ≤ BinaryFormat.double.exponentBits by decide)]
    constructor
    · rintro ⟨_, ⟨exact, found, low, rfl⟩, high⟩
      exact ⟨exact, found, low, high⟩
    · rintro ⟨exact, found, low, high⟩
      exact ⟨_, ⟨exact, found, low, rfl⟩, high⟩
  · have even := @Binary.dvd_of_toRat? _ number (by decide) 10 _ found (by decide)
    exact absurd even (by decide)
  · have even := @Binary.dvd_of_toRat? _ number (by decide) 11 _ found (by decide)
    exact absurd even (by decide)

/-! ### Signed and unsigned coercions -/

/-- A value is a fraction below zero that is truncated to zero. -/
def VanishesBelowZero (value : Value) : Prop :=
  ∃ exact, value.number? = some exact ∧ -1 < exact ∧ exact < 0

/-- A value that vanishes below zero is truncated to zero. -/
theorem VanishesBelowZero.truncatesTo (vanishes : value.VanishesBelowZero) :
    value.TruncatesTo 0 := by
  obtain ⟨exact, found, low, high⟩ := vanishes
  exact ⟨exact, found, truncated_eq_zero_iff.mpr ⟨low, by linarith⟩⟩

/-- A value that vanishes below zero counts nothing. -/
theorem VanishesBelowZero.not_countsTo (vanishes : value.VanishesBelowZero) (result : Nat) :
    ¬ value.CountsTo result := by
  obtain ⟨exact, found, -, high⟩ := vanishes
  rintro ⟨other, again, nonnegative, -⟩
  cases found.symm.trans again
  exact absurd nonnegative (not_le.mpr high)

/-- A value that is truncated to a natural number counts it, unless that is zero and the value
vanishes below zero. -/
theorem countsTo_iff {result : Nat} :
    value.CountsTo result ↔
      value.TruncatesTo result ∧ ¬ (result = 0 ∧ value.VanishesBelowZero) := by
  constructor
  · intro counts
    refine ⟨?_, fun both => both.2.not_countsTo result counts⟩
    obtain ⟨exact, found, -, same⟩ := counts
    exact ⟨exact, found, same⟩
  · rintro ⟨⟨exact, found, same⟩, kept⟩
    refine ⟨exact, found, ?_, same⟩
    by_contra negative
    have below : exact < 0 := not_le.mp negative
    have ceiling : ⌈exact⌉ ≤ 0 := Int.ceil_le.mpr (by exact_mod_cast below.le)
    have zero : result = 0 := by
      rw [truncated, if_neg negative] at same
      omega
    rw [zero] at same
    exact kept ⟨zero, exact, found, (truncated_eq_zero_iff.mp same).1, below⟩

/-- A natural number is counted exactly when it is what the value is truncated to, but for zero out
of a value that vanishes below it. -/
theorem countsTo_iff_truncatesTo_iff (value : Value) (result : Nat) :
    (value.CountsTo result ↔ value.TruncatesTo result) ↔
      ¬ (result = 0 ∧ value.VanishesBelowZero) := by
  rw [countsTo_iff, and_iff_left_iff_imp]
  constructor
  · rintro kept ⟨rfl, vanishes⟩
    exact kept vanishes.truncatesTo ⟨rfl, vanishes⟩
  · exact fun kept _ => kept

/-- In the range that a signed and an unsigned coercion of one width share, the two read a value as
the same number, but for zero out of a fraction below it, which is truncated to zero by the signed
coercion and refused by the unsigned one. -/
theorem unsigned_iff_signed (value : Value) (result : Nat) :
    (result < 2 ^ 63 →
      ((value.toUInt64?.map UInt64.toNat = some result ↔
          value.toInt64?.map Int64.toInt = some (result : Int)) ↔
        ¬ (result = 0 ∧ value.VanishesBelowZero))) ∧
      (result < 2 ^ 31 →
        ((value.toUInt32?.map UInt32.toNat = some result ↔
            value.toInt32?.map Int32.toInt = some (result : Int)) ↔
          ¬ (result = 0 ∧ value.VanishesBelowZero))) ∧
      (value.VanishesBelowZero →
        value.toInt64?.map Int64.toInt = some 0 ∧ value.toInt32?.map Int32.toInt = some 0 ∧
          value.toUInt64? = none ∧ value.toUInt32? = none) := by
  refine ⟨fun fits => ?_, fun fits => ?_, fun vanishes => ?_⟩
  · rw [toUInt64?_map_eq_some, toInt64?_map_eq_some, ← countsTo_iff_truncatesTo_iff,
      and_iff_left (show result < 2 ^ 64 by omega),
      and_iff_left (show -2 ^ 63 ≤ (result : Int) ∧ (result : Int) < 2 ^ 63 by omega)]
  · rw [toUInt32?_map_eq_some, toInt32?_map_eq_some, ← countsTo_iff_truncatesTo_iff,
      and_iff_left (show result < 2 ^ 32 by omega),
      and_iff_left (show -2 ^ 31 ≤ (result : Int) ∧ (result : Int) < 2 ^ 31 by omega)]
  · have wide : value.toUInt64? = none := by
      rw [Option.eq_none_iff_forall_ne_some]
      intro number read
      have counts := (@toUInt64?_map_eq_some value number.toNat).mp (by rw [read, Option.map_some])
      exact vanishes.not_countsTo _ counts.1
    exact ⟨toInt64?_map_eq_some.mpr ⟨vanishes.truncatesTo, by decide, by decide⟩,
      toInt32?_map_eq_some.mpr ⟨vanishes.truncatesTo, by decide, by decide⟩, wide,
      by rw [toUInt32?, wide, Option.bind_none]⟩

/-- One half below zero. -/
def halfBelowZero : Value := .float (Binary.ofBits 0xBFE0000000000000)

/-- The number of one half below zero: an exponent field one less than that of one, no fraction, and
a sign. -/
theorem number?_halfBelowZero : halfBelowZero.number? = some (-1 / 2) := by
  have pattern : (Binary.ofBits 0xBFE0000000000000 : Double) =
      .signed true ⟨0x3FE0000000000000, by decide⟩ := by decide
  have finite : 0x3FE0000000000000 < BinaryFormat.double.infinity := by decide
  have exponent : 0x3FE0000000000000 / BinaryFormat.double.binade = 1022 := by decide
  have fraction : 0x3FE0000000000000 % BinaryFormat.double.binade = 0 := by decide
  have bias : BinaryFormat.double.bias = 1023 := by decide
  rw [halfBelowZero, number?, pattern, Binary.toRat?, if_pos finite, BinaryFormat.magnitude]
  simp only [exponent, fraction, bias]
  norm_num

/-- One half below zero is read as zero by the signed coercions and refused by the unsigned ones, so
the two do not agree on all numbers in the range that they share. -/
theorem half_below_zero_is_signed_only :
    halfBelowZero.toInt64? = some 0 ∧ halfBelowZero.toUInt64? = none ∧
      halfBelowZero.toInt32? = some 0 ∧ halfBelowZero.toUInt32? = none ∧
      ¬ ∀ (value : Value) (result : Nat), result < 2 ^ 63 →
        (value.toUInt64?.map UInt64.toNat = some result ↔
          value.toInt64?.map Int64.toInt = some (result : Int)) := by
  have signed : halfBelowZero.toInt64? = some 0 := by decide +kernel
  have unsigned : halfBelowZero.toUInt64? = none := by decide +kernel
  refine ⟨signed, unsigned, by rw [toInt32?, signed]; decide, by rw [toUInt32?, unsigned]; rfl,
    fun agree => ?_⟩
  have zero := (agree halfBelowZero 0 (by decide)).mpr (by rw [signed]; rfl)
  rw [unsigned] at zero
  cases zero

/-- One half below zero vanishes, so only the signed coercions read it as zero; the largest signed
integer is read by both. -/
theorem unsigned_iff_signed_half :
    halfBelowZero.VanishesBelowZero ∧ halfBelowZero.toInt64?.map Int64.toInt = some 0 ∧
      halfBelowZero.toUInt32? = none ∧
      ¬ (halfBelowZero.toUInt64?.map UInt64.toNat = some 0 ↔
        halfBelowZero.toInt64?.map Int64.toInt = some (0 : Nat)) ∧
      ((Value.uint 9223372036854775807).toUInt64?.map UInt64.toNat = some (2 ^ 63 - 1) ↔
        (Value.uint 9223372036854775807).toInt64?.map Int64.toInt =
          some ((2 ^ 63 - 1 : Nat) : Int)) := by
  have vanishes : halfBelowZero.VanishesBelowZero :=
    ⟨-1 / 2, number?_halfBelowZero, by norm_num, by norm_num⟩
  have half := unsigned_iff_signed halfBelowZero 0
  refine ⟨vanishes, (half.2.2 vanishes).1, (half.2.2 vanishes).2.2.2, fun same => ?_, ?_⟩
  · exact (half.1 (by decide)).mp same ⟨rfl, vanishes⟩
  · exact ((unsigned_iff_signed (.uint 9223372036854775807) (2 ^ 63 - 1)).1 (by decide)).mpr
      fun zero => absurd zero.1 (by decide)

end Value

end TypedRecord
