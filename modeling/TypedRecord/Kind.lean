import TypedRecord.Value.Coercion

/-!
# Kinds of fields

A kind is the representation that a typed field asks for. Its carrier is the type of the data that
such a field holds, so a field never holds data of another kind. Reading a value as a kind is the
coercion of that kind; writing gives the value back that stands for the data.
-/
namespace TypedRecord

/-- The representation a field asks for. -/
inductive Kind where
  /-- A truth value. -/
  | bool
  /-- A signed integer of 32 bits. -/
  | int32
  /-- A signed integer of 64 bits. -/
  | int64
  /-- An unsigned integer of 32 bits. -/
  | uint32
  /-- An unsigned integer of 64 bits. -/
  | uint64
  /-- A binary number of 32 bits. -/
  | single
  /-- A binary number of 64 bits. -/
  | double
  /-- A text. -/
  | text
  /-- A point in time. -/
  | timestamp
  /-- A run of bytes. -/
  | bytes
  /-- A mapping. -/
  | map
  /-- Any value. -/
  | any
  /-- A list of texts. -/
  | texts
  /-- A list of mappings. -/
  | maps
  /-- Data of another kind, or none. -/
  | option (inner : Kind)
deriving DecidableEq, Repr

namespace Kind

/-- The data of a field of the kind. -/
@[reducible] def Carrier : Kind → Type
  | .bool => Bool
  | .int32 => Int32
  | .int64 => Int64
  | .uint32 => UInt32
  | .uint64 => UInt64
  | .single => Single
  | .double => Double
  | .text => String
  | .timestamp => Timestamp
  | .bytes => List UInt8
  | .map => Mapping
  | .any => Value
  | .texts => List String
  | .maps => List Mapping
  | .option inner => Option inner.Carrier

/-- The name of the kind in diagnostics; an optional kind has the name of the kind inside. -/
def name : Kind → String
  | .bool => "bool"
  | .int32 | .int64 => "int"
  | .uint32 | .uint64 => "uint"
  | .single | .double => "float"
  | .text => "text"
  | .timestamp => "timestamp"
  | .bytes => "bytes"
  | .map => "map"
  | .any => "any"
  | .texts | .maps => "list"
  | .option inner => inner.name

/-- What a field of the kind holds before anything is assigned. -/
def default : (kind : Kind) → kind.Carrier
  | .bool => false
  | .int32 => (0 : Int32)
  | .int64 => (0 : Int64)
  | .uint32 => (0 : UInt32)
  | .uint64 => (0 : UInt64)
  | .single => (Binary.zero : Single)
  | .double => (Binary.zero : Double)
  | .text => ""
  | .timestamp => Timestamp.epoch
  | .bytes => ([] : List UInt8)
  | .map => ([] : Mapping)
  | .any => Value.null
  | .texts => ([] : List String)
  | .maps => ([] : List Mapping)
  | .option _ => none

/-- The value that stands for data of the kind. -/
def toValue : (kind : Kind) → kind.Carrier → Value
  | .bool, truth => .bool truth
  | .int32, number => .int (Int64.ofInt (Int32.toInt number))
  | .int64, number => .int number
  | .uint32, number => .uint (UInt64.ofNat (UInt32.toNat number))
  | .uint64, number => .uint number
  | .single, number => .float (Binary.convert number)
  | .double, number => .float number
  | .text, content => .text content
  | .timestamp, time => .timestamp time
  | .bytes, content => .blob content
  | .map, entries => .map entries
  | .any, value => value
  | .texts, items => Value.texts items
  | .maps, items => Value.maps items
  | .option inner, data => match data with
    | none => .null
    | some data => inner.toValue data

/-- A value read as data of the kind. -/
def ofValue? : (kind : Kind) → Value → Option kind.Carrier
  | .bool, value => value.toBool?
  | .int32, value => value.toInt32?
  | .int64, value => value.toInt64?
  | .uint32, value => value.toUInt32?
  | .uint64, value => value.toUInt64?
  | .single, value => value.toSingle?
  | .double, value => value.toDouble?
  | .text, value => value.asText?
  | .timestamp, value => value.toTimestamp?
  | .bytes, value => value.toBytes?
  | .map, value => value.asMap?
  | .any, value => some value
  | .texts, value => value.asList?.bind fun items => items.mapM Value.asText?
  | .maps, value => value.asList?.bind fun items => items.mapM Value.asMap?
  | .option inner, value =>
    if value.isNull then some none else (inner.ofValue? value).map some

end Kind

end TypedRecord
