import TypedRecord.Value.Coercion

/-!
# Integers in range

An integer is read at a width exactly when it lies in the range of that width, so every machine
integer is read back from its number.
-/
namespace TypedRecord

/-- The numbers of signed 64-bit integers. -/
theorem int64?_eq_some {number : Int} (low : -2 ^ 63 ≤ number) (high : number < 2 ^ 63) :
    int64? number = some (Int64.ofInt number) := by
  rw [int64?, if_pos]
  omega

/-- A number outside the range of signed 64-bit integers is refused. -/
theorem int64?_eq_none {number : Int} (outside : number < -2 ^ 63 ∨ 2 ^ 63 ≤ number) :
    int64? number = none := by
  rw [int64?, if_neg]
  omega

/-- A signed 64-bit integer is read back from its number. -/
@[simp] theorem int64?_toInt (number : Int64) : int64? number.toInt = some number := by
  have low := number.le_toInt
  have high := number.toInt_lt
  rw [int64?_eq_some low high, Int64.ofInt_toInt]

/-- A signed 32-bit integer is read back from its number. -/
@[simp] theorem int32?_toInt (number : Int32) : int32? number.toInt = some number := by
  have low := number.le_toInt
  have high := number.toInt_lt
  rw [int32?, if_pos (by omega), Int32.ofInt_toInt]

/-- The numbers of unsigned 64-bit integers. -/
theorem uint64?_eq_some {number : Nat} (high : number < 2 ^ 64) :
    uint64? number = some (UInt64.ofNat number) := by
  rw [uint64?, Int.toNat_natCast, if_pos ⟨Int.natCast_nonneg number, high⟩]

/-- An unsigned 64-bit integer is read back from its number. -/
@[simp] theorem uint64?_toNat (number : UInt64) : uint64? number.toNat = some number := by
  rw [uint64?_eq_some number.toNat_lt, UInt64.ofNat_toNat]

/-- An unsigned 32-bit integer is read back from its number. -/
@[simp] theorem uint32?_toNat (number : UInt32) : uint32? number.toNat = some number := by
  rw [uint32?, if_pos number.toNat_lt, UInt32.ofNat_toNat]

/-- A byte is read back from its number. -/
@[simp] theorem uint8?_toNat (byte : UInt8) : uint8? byte.toNat = some byte := by
  rw [uint8?, if_pos byte.toNat_lt, UInt8.ofNat_toNat]

end TypedRecord
