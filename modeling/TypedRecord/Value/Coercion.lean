import TypedRecord.Text.Utf8
import TypedRecord.Time.Rfc3339
import TypedRecord.Value.Basic

/-!
# Coercions

A coercion reads a value as one representation, or refuses it. Numbers are truncated toward zero and
then have to lie in the range that is asked for; nothing wraps and nothing is clamped. Text is never
made from a number, and a truth value never from an integer.
-/
namespace TypedRecord

namespace Binary

variable {format : BinaryFormat}

/-- The integer part of a finite datum that is at least `lower` and below `upper`. -/
def truncateWithin? (lower upper : Int) (datum : Binary format) : Option Int :=
  match datum.scaled? with
  | some scaled =>
    if lower * format.one ≤ scaled ∧ scaled < upper * format.one then
      some (scaled.tdiv format.one)
    else none
  | none => none

end Binary

/-- A signed 64-bit integer in range. The range is that of the natural numbers of either sign, so a
number that is not known is not counted down from its bound. -/
def int64? (number : Int) : Option Int64 :=
  if (-number).toNat ≤ 2 ^ 63 ∧ number.toNat < 2 ^ 63 then some (Int64.ofInt number) else none

/-- A signed 32-bit integer in range. -/
def int32? (number : Int) : Option Int32 :=
  if (-number).toNat ≤ 2 ^ 31 ∧ number.toNat < 2 ^ 31 then some (Int32.ofInt number) else none

/-- An unsigned 64-bit integer in range. -/
def uint64? (number : Int) : Option UInt64 :=
  if 0 ≤ number ∧ number.toNat < 2 ^ 64 then some (UInt64.ofNat number.toNat) else none

/-- An unsigned 32-bit integer in range. -/
def uint32? (number : Nat) : Option UInt32 :=
  if number < 2 ^ 32 then some (UInt32.ofNat number) else none

/-- A byte in range. -/
def uint8? (number : Nat) : Option UInt8 :=
  if number < 2 ^ 8 then some (UInt8.ofNat number) else none

namespace Value

/-- The usual spellings of a truth value, in either case. -/
def parseBool? (text : String) : Option Bool :=
  match text.toLower with
  | "true" | "t" | "1" => some true
  | "false" | "f" | "0" => some false
  | _ => none

/-- A truth value, from itself or from its spelling. -/
def toBool? : Value → Option Bool
  | .bool truth => some truth
  | .text content => parseBool? content
  | _ => none

/-- A signed integer, from an integer in range or from the integer part of a finite number. -/
def toInt64? : Value → Option Int64
  | .int number => some number
  | .uint number => int64? number.toNat
  | .float number => (number.truncateWithin? (-2 ^ 63) (2 ^ 63)).bind int64?
  | _ => none

/-- A signed integer of 32 bits. -/
def toInt32? (value : Value) : Option Int32 :=
  value.toInt64?.bind fun number => int32? number.toInt

/-- An unsigned integer, from an integer in range or from the integer part of a finite number that
is not below zero. -/
def toUInt64? : Value → Option UInt64
  | .uint number => some number
  | .int number => uint64? number.toInt
  | .float number => (number.truncateWithin? 0 (2 ^ 64)).bind uint64?
  | _ => none

/-- An unsigned integer of 32 bits. -/
def toUInt32? (value : Value) : Option UInt32 :=
  value.toUInt64?.bind fun number => uint32? number.toNat

/-- A 64-bit number, from a number or from the nearest one to an integer. -/
def toDouble? : Value → Option Double
  | .float number => some number
  | .int number => some (Binary.ofInt number.toInt)
  | .uint number => some (Binary.ofInt number.toNat)
  | _ => none

/-- A 32-bit number. A finite number beyond its range is refused and does not become infinite. -/
def toSingle? (value : Value) : Option Single :=
  match value.toDouble? with
  | some number =>
    let narrowed : Single := number.convert
    if narrowed.isFinite || !number.isFinite then some narrowed else none
  | none => none

/-- A byte, from an unsigned integer in range. -/
def toByte? (value : Value) : Option UInt8 :=
  value.toUInt64?.bind fun number => uint8? number.toNat

/-- Bytes, from a blob, from the bytes of a text or from a list of byte-sized integers. -/
def toBytes? : Value → Option (List UInt8)
  | .blob bytes => some bytes
  | .text content => some (Utf8.encode content)
  | .list items => items.mapM toByte?
  | _ => none

/-- A timestamp, from itself, from a count of milliseconds or from its text. -/
def toTimestamp? : Value → Option Timestamp
  | .timestamp time => some time
  | .int millis => some ⟨millis⟩
  | .uint millis => (int64? millis.toNat).map fun millis => ⟨millis⟩
  | .text content => Timestamp.parseFlexible? content
  | _ => none

end Value

end TypedRecord
