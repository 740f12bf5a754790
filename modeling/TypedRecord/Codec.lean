import TypedRecord.Cbor.Reader
import TypedRecord.Cbor.Writer
import TypedRecord.Json.Tree
import TypedRecord.Json.Writer

/-!
# Codecs

A codec is a wire format with a bound on the payloads it agrees to decode. The bound is looked at
before anything of the payload is read; there is no bound on what is encoded. JSON has no number
that is not finite, so a value that holds one is refused and never written as something else.
-/
namespace TypedRecord

/-- The formats a value can be written in. -/
inductive WireFormat where
  /-- Text. -/
  | json
  /-- Binary. -/
  | cbor
deriving DecidableEq, Repr

namespace WireFormat

/-- The name of the format. -/
def name : WireFormat → String
  | .json => "json"
  | .cbor => "cbor"

/-- The value of a JSON text in its bytes. -/
def decodeJson (bytes : List UInt8) : Except DecodeCause Value :=
  match ((Utf8.decode? bytes).bind Json.Term.parse?).bind Json.Term.value? with
  | some value => .ok value
  | none => .error .malformed

/-- The value of bytes in the format, whatever their number. -/
def decode (format : WireFormat) (bytes : List UInt8) : Except DecodeCause Value :=
  match format with
  | .json => decodeJson bytes
  | .cbor => Cbor.decode bytes

end WireFormat

/-- A wire format, and the length of the longest payload that is decoded. -/
structure Codec where
  /-- The format. -/
  format : WireFormat
  /-- The length of the longest payload that is decoded. -/
  maxBytes : Nat
deriving DecidableEq, Repr

namespace Codec

/-- The bound of a codec that is not told another one. -/
def defaultMaxBytes : Nat := 1024 * 1024

/-- The codec of a format with the default bound. -/
def standard (format : WireFormat) : Codec := ⟨format, defaultMaxBytes⟩

/-- The bytes of a value. -/
def encode (codec : Codec) (value : Value) : Except CodecError (List UInt8) :=
  match codec.format with
  | .json => match value.firstNonFinite? with
    | some number => .error (.encode (.nonFinite number))
    | none => .ok (Utf8.encode value.toTerm.render)
  | .cbor => .ok value.toCbor

/-- The value of a payload that is not too long. -/
def decode (codec : Codec) (bytes : List UInt8) : Except CodecError Value :=
  if codec.maxBytes < bytes.length then .error (.tooLong bytes.length codec.maxBytes)
  else match codec.format.decode bytes with
    | .ok value => .ok value
    | .error cause => .error (.decode cause)

/-- What is decoded is not too long, and is what its format says. -/
theorem decode_eq_ok_iff {codec : Codec} {bytes : List UInt8} {value : Value} :
    codec.decode bytes = .ok value ↔
      bytes.length ≤ codec.maxBytes ∧ codec.format.decode bytes = .ok value := by
  rw [decode]
  by_cases long : codec.maxBytes < bytes.length
  · simp [long, Nat.not_le_of_lt long]
  · cases codec.format.decode bytes <;> simp [long, Nat.le_of_not_lt long]

end Codec

/-- The mapping of a JSON text whose outermost part is an object. -/
def Mapping.ofJson (text : String) : Except Error Mapping :=
  match (Json.Term.parse? text).bind Json.Term.tree? with
  | none => .error (.refuse (.unreadable .json))
  | some tree => match tree.toValue with
    | .map entries => .ok entries
    | other => .error (.refuse (.notAnObject other.typeName))

end TypedRecord
