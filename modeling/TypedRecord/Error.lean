import TypedRecord.Decimal.Numeral

/-!
# Errors

An error is a cause and the path of nested properties above the place where it arose, outermost
first. Causes are data; their wording is in `message` alone. Wrapping an error in a property or an
index only makes its path longer, so the cause, and with it the kind of the error, never changes.
-/
namespace TypedRecord

/-- Why a value could not be encoded. -/
inductive EncodeCause where
  /-- The format cannot say a number that is not finite. -/
  | nonFinite (number : Double)
  /-- A cause given by its text. -/
  | other (text : String)
deriving DecidableEq

/-- Why a payload could not be decoded. -/
inductive DecodeCause where
  /-- The payload is not a well-formed document of its format. -/
  | malformed
  /-- An array header asked for more room than there can be. -/
  | reservation
  /-- A cause given by its text. -/
  | other (text : String)
deriving DecidableEq

/-- Why a codec failed. -/
inductive CodecError where
  /-- A value could not be encoded. -/
  | encode (cause : EncodeCause)
  /-- A payload could not be decoded. -/
  | decode (cause : DecodeCause)
  /-- A payload is longer than the codec agrees to decode. -/
  | tooLong (length limit : Nat)
deriving DecidableEq

/-- The kinds of codec errors, which do not depend on any text. -/
inductive CodecErrorKind where
  /-- Encoding failed. -/
  | encode
  /-- Decoding failed. -/
  | decode
  /-- The payload was too long. -/
  | tooLong
deriving DecidableEq

/-- A place below a property. -/
inductive Place where
  /-- The property itself. -/
  | property (name : String)
  /-- An item of its list. -/
  | item (name : String) (index : Nat)
  /-- An entry of its map. -/
  | entry (name key : String)
deriving DecidableEq

/-- A document that is read whole before it is used. -/
inductive Document where
  /-- A JSON object. -/
  | json
  /-- The settings of a hydrator. -/
  | settings
deriving DecidableEq

/-- Why an argument is refused. -/
inductive Refusal where
  /-- A document cannot be read. -/
  | unreadable (document : Document)
  /-- A JSON document is something else than an object. -/
  | notAnObject (found : String)
  /-- A renaming rule is neither a text nor a map. -/
  | badRule (key found : String)
  /-- The new name of a container is not a text. -/
  | badContainerName (key found : String)
  /-- A type is registered twice. -/
  | alreadyRegistered (name : String)
  /-- A type was registered without a way to make collections. -/
  | noCollections (name : String)
  /-- Objects of a type have no fields to assign. -/
  | notHydratable (name : String)
  /-- Entities are nested deeper than is allowed. -/
  | tooDeep (limit : Nat)
  /-- A key names no field. -/
  | unknownField (key : String)
  /-- A processor does not accept a value of a type. -/
  | refused (key found : String)
  /-- A refusal given by its text. -/
  | other (text : String)
deriving DecidableEq

/-- Why an operation failed. -/
inductive Cause where
  /-- A value at a place cannot become what the field expects. -/
  | mismatch (place : Place) (expected found : String)
  /-- A payload is a document, but not a record. -/
  | notARecord (format found : String)
  /-- Objects of a type cannot be read from a record. -/
  | notSerializable (name : String)
  /-- A serialization failed with a text. -/
  | serialization (property text : String)
  /-- A codec failed. -/
  | codec (error : CodecError)
  /-- A type is not registered. -/
  | missingType (name : String)
  /-- An argument is refused. -/
  | badArgument (refusal : Refusal)
deriving DecidableEq

/-- The kinds of errors, which do not depend on any text. -/
inductive ErrorKind where
  /-- A value does not fit. -/
  | typeMismatch
  /-- Serialization failed. -/
  | serialization
  /-- A type is missing. -/
  | missingType
  /-- An argument is refused. -/
  | badArgument
deriving DecidableEq

/-- A step of an error's path. -/
inductive Segment where
  /-- A property. -/
  | field (name : String)
  /-- An item of a list. -/
  | index (position : Nat)
deriving DecidableEq

/-- A cause, and the path above the place where it arose, outermost first. -/
structure Error where
  /-- The nested properties and items above. -/
  path : List Segment
  /-- What went wrong there. -/
  cause : Cause
deriving DecidableEq

/-- The text of a datum that is not finite. -/
def Binary.nonFiniteText {format : BinaryFormat} : Binary format → String
  | .nan => "NaN"
  | .signed negative _ => if negative then "-inf" else "inf"

namespace EncodeCause

/-- The wording of the cause. -/
def message : EncodeCause → String
  | .nonFinite number => s!"non-finite float {number.nonFiniteText} has no JSON representation"
  | .other text => text

end EncodeCause

namespace DecodeCause

/-- The wording of the cause. -/
def message : DecodeCause → String
  | .malformed => "malformed document"
  | .reservation => "panic during CBOR deserialization"
  | .other text => text

end DecodeCause

namespace CodecError

/-- The wording of the error. -/
def message : CodecError → String
  | .encode cause => s!"encode error: {cause.message}"
  | .decode cause => s!"decode error: {cause.message}"
  | .tooLong length limit =>
    s!"decode size limit exceeded: {length} bytes (limit {limit})"

/-- The kind of the error. -/
def kind : CodecError → CodecErrorKind
  | .encode _ => .encode
  | .decode _ => .decode
  | .tooLong _ _ => .tooLong

end CodecError

namespace CodecErrorKind

/-- The name of the kind. -/
def name : CodecErrorKind → String
  | .encode => "encode"
  | .decode => "decode"
  | .tooLong => "size_limit_exceeded"

end CodecErrorKind

namespace Place

/-- The text of a place: an index in brackets, a key after a dot. -/
def text : Place → String
  | .property name => name
  | .item name index => s!"{name}[{index}]"
  | .entry name key => s!"{name}.{key}"

end Place

namespace Refusal

/-- The wording of the refusal. -/
def message : Refusal → String
  | .unreadable .json => "invalid JSON document: malformed document"
  | .unreadable .settings => "invalid hydrate config: malformed document"
  | .notAnObject found => s!"expected a JSON object, found {found}"
  | .badRule key found => s!"transformation '{key}' must be text or a map, found {found}"
  | .badContainerName key found =>
    s!"transformation '{key}': '__key' must be text, found {found}"
  | .alreadyRegistered name => s!"type '{name}' is already registered"
  | .noCollections name => s!"type '{name}' has no collection constructor"
  | .notHydratable name => s!"type '{name}' does not support hydration"
  | .tooDeep limit => s!"nesting exceeds the maximum depth of {limit}"
  | .unknownField key => s!"unknown field '{key}'"
  | .refused key found => s!"{key} refuses {found}"
  | .other text => text

end Refusal

namespace Cause

/-- The wording of the cause. -/
def message : Cause → String
  | .mismatch place expected found =>
    s!"type mismatch for '{place.text}': expected {expected}, found {found}"
  | .notARecord format found =>
    s!"serialization error for '<record>': {format} payload decoded to {found}, expected a map"
  | .notSerializable name =>
    s!"serialization error for '{name}': object type is not serializable"
  | .serialization property text => s!"serialization error for '{property}': {text}"
  | .codec error => error.message
  | .missingType name => s!"type '{name}' is not registered"
  | .badArgument refusal => s!"bad argument: {refusal.message}"

/-- The kind of the cause. -/
def kind : Cause → ErrorKind
  | .mismatch .. => .typeMismatch
  | .notARecord .. | .notSerializable _ | .serialization .. | .codec _ => .serialization
  | .missingType _ => .missingType
  | .badArgument _ => .badArgument

/-- The cause as an error at the place itself. -/
def error (cause : Cause) : Error := ⟨[], cause⟩

end Cause

namespace ErrorKind

/-- The name of the kind. -/
def name : ErrorKind → String
  | .typeMismatch => "type_mismatch"
  | .serialization => "serialization"
  | .missingType => "missing_type"
  | .badArgument => "bad_argument"

end ErrorKind

namespace Segment

/-- The text of a segment: an index stands in brackets. -/
def text : Segment → String
  | .field name => name
  | .index position => s!"[{position}]"

/-- The text of a path that starts with a segment. A dot stands before whatever does not start with
a bracket. -/
def pathText (first : Segment) : List Segment → String
  | [] => first.text
  | second :: rest =>
    let after := pathText second rest
    if after.toList.head? = some '[' then first.text ++ after else first.text ++ "." ++ after

end Segment

namespace Error

/-- The error below a property. -/
def within (error : Error) (name : String) : Error := ⟨.field name :: error.path, error.cause⟩

/-- The error below an item. -/
def withinItem (error : Error) (position : Nat) : Error :=
  ⟨.index position :: error.path, error.cause⟩

/-- The text of the path, when there is one. -/
def pathText? (error : Error) : Option String :=
  match error.path with
  | [] => none
  | first :: rest => some (first.pathText rest)

/-- The kind of the error. -/
def kind (error : Error) : ErrorKind := error.cause.kind

/-- The cause below the path, when there is a path. -/
def source? (error : Error) : Option Cause :=
  if error.path.isEmpty then none else some error.cause

/-- The wording of the error: its path, a colon and the wording of its cause. -/
def message (error : Error) : String :=
  match error.pathText? with
  | none => error.cause.message
  | some path => s!"{path}: {error.cause.message}"

/-- A value at a place does not fit. -/
def mismatch (place : Place) (expected found : String) : Error :=
  (Cause.mismatch place expected found).error

/-- An argument is refused. -/
def refuse (refusal : Refusal) : Error := (Cause.badArgument refusal).error

end Error

end TypedRecord
