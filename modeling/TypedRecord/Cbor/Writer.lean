import TypedRecord.Cbor.Head
import TypedRecord.Value.Coercion

/-!
# Values as CBOR

A value is written as the plain document it describes: a blob as a byte string, a timestamp as the
count of its milliseconds, lists and maps with their lengths in front. Every number and every length
is written as short as it goes.
-/
namespace TypedRecord.Value

open Cbor (Head)

/-- The bytes of a text with its head. -/
def textCbor (content : String) : List UInt8 :=
  let bytes := Utf8.encode content
  Head.argumentBytes 3 bytes.length ++ bytes

mutual

/-- The CBOR bytes of a value. -/
def toCbor : Value → List UInt8
  | .null => [0xf6]
  | .bool false => [0xf4]
  | .bool true => [0xf5]
  | .int number => Head.integerBytes number.toInt
  | .uint number => Head.argumentBytes 0 number.toNat
  | .float number => Head.floatBytes number
  | .text content => textCbor content
  | .blob bytes => Head.argumentBytes 2 bytes.length ++ bytes
  | .timestamp time => Head.integerBytes time.millis.toInt
  | .list items => Head.argumentBytes 4 items.length ++ itemsCbor items
  | .map entries => Head.argumentBytes 5 entries.length ++ entriesCbor entries

/-- The CBOR bytes of the items of a list. -/
def itemsCbor : List Value → List UInt8
  | [] => []
  | item :: rest => item.toCbor ++ itemsCbor rest

/-- The CBOR bytes of the entries of a map, each key before its value. -/
def entriesCbor : List (String × Value) → List UInt8
  | [] => []
  | (key, value) :: rest => textCbor key ++ value.toCbor ++ entriesCbor rest

end

end TypedRecord.Value
