import TypedRecord.Codec
import TypedRecord.Json.Fields

/-!
# Settings

The settings of a hydrator and of the codecs that go with it. Every setting has a default, so a
document says only what differs.
-/
namespace TypedRecord

/-- The settings of a hydrator. -/
structure Settings where
  /-- The deepest level of nested entities that is built. -/
  maxDepth : Nat
  /-- The keys that an update by a caller never overwrites. -/
  protectedFields : List String
  /-- Whether keys without a field are skipped. -/
  ignoreUnknown : Bool
  /-- The length of the longest payload that is decoded. -/
  maxBytes : Nat
deriving DecidableEq, Repr

namespace Settings

/-- The keys that identify and audit an entity. -/
def auditFields : List String :=
  ["Id", "IsNew", "CreatedBy", "UpdatedBy", "CreatedAt", "UpdatedAt"]

/-- The settings of an empty document. -/
def standard : Settings where
  maxDepth := 32
  protectedFields := auditFields
  ignoreUnknown := true
  maxBytes := Codec.defaultMaxBytes

/-- The codec of a format under the settings. -/
def codec (settings : Settings) (format : WireFormat) : Codec := ⟨format, settings.maxBytes⟩

open Json (Term)

/-- The bound on payloads in the settings of codecs. -/
def maxBytesOfTerm? (term : Term) : Option Nat := do
  let fields ← term.fields? ["max_bytes"]
  Term.field? fields "max_bytes" Term.natural? standard.maxBytes

/-- The settings of a term. -/
def ofTerm? (term : Term) : Option Settings := do
  let fields ← term.fields? ["max_depth", "protected_fields", "ignore_unknown", "codec"]
  let maxDepth ← Term.field? fields "max_depth" Term.natural? standard.maxDepth
  let protectedFields ←
    Term.field? fields "protected_fields" Term.texts? standard.protectedFields
  let ignoreUnknown ← Term.field? fields "ignore_unknown" Term.truth? standard.ignoreUnknown
  let maxBytes ← Term.field? fields "codec" maxBytesOfTerm? standard.maxBytes
  return ⟨maxDepth, protectedFields, ignoreUnknown, maxBytes⟩

/-- The settings of a JSON text. -/
def ofJson (text : String) : Except Error Settings :=
  match (Term.parse? text).bind ofTerm? with
  | some settings => .ok settings
  | none => .error (.refuse (.unreadable .settings))

end Settings

end TypedRecord
