import TypedRecord.Error
import TypedRecord.Kind

/-!
# Contents of plain fields

A plain field holds data of one kind, an array of them or a table of them under keys. Its shape and
its kind never change: a value that is loaded replaces the data, or is refused with the place of the
first part that does not fit, and then nothing changes.
-/
namespace TypedRecord

/-- What a field holds that holds no entity. -/
inductive Content where
  /-- Data of a kind. -/
  | scalar (kind : Kind) (data : kind.Carrier)
  /-- Data of a kind in order. -/
  | array (kind : Kind) (items : List kind.Carrier)
  /-- Data of a kind under keys, in ascending order of the keys. -/
  | table (kind : Kind) (entries : List (String × kind.Carrier))

namespace Kind

/-- The items of a list read as data of the kind, from a position on. -/
def loadItems (kind : Kind) (name : String) (position : Nat) :
    List Value → Except Error (List kind.Carrier)
  | [] => .ok []
  | item :: rest => match kind.ofValue? item with
    | none => .error (.mismatch (.item name position) kind.name item.typeName)
    | some data => (loadItems kind name (position + 1) rest).map (data :: ·)

/-- The entries of a map read as data of the kind. -/
def loadEntries (kind : Kind) (name : String) :
    List (String × Value) → Except Error (List (String × kind.Carrier))
  | [] => .ok []
  | (key, value) :: rest => match kind.ofValue? value with
    | none => .error (.mismatch (.entry name key) kind.name value.typeName)
    | some data => (loadEntries kind name rest).map ((key, data) :: ·)

end Kind

namespace Content

/-- A field of a kind before anything is loaded. -/
def ofKind (kind : Kind) : Content := .scalar kind kind.default

/-- The content as it is before anything is loaded. -/
def reset : Content → Content
  | .scalar kind _ => .scalar kind kind.default
  | .array kind _ => .array kind []
  | .table kind _ => .table kind []

/-- The value that stands for the content. -/
def toValue : Content → Value
  | .scalar kind data => kind.toValue data
  | .array kind items => .list (items.map kind.toValue)
  | .table kind entries => .map (Entries.mapValues kind.toValue entries)

/-- The content with a value loaded at a property. -/
def load (name : String) (value : Value) : Content → Except Error Content
  | .scalar kind _ => match kind.ofValue? value with
    | some data => .ok (.scalar kind data)
    | none => .error (.mismatch (.property name) kind.name value.typeName)
  | .array kind _ => match value with
    | .list items => (kind.loadItems name 0 items).map (.array kind)
    | other => .error (.mismatch (.property name) "list" other.typeName)
  | .table kind _ => match value with
    | .map entries => (kind.loadEntries name entries).map (.table kind)
    | other => .error (.mismatch (.property name) "map" other.typeName)

end Content

end TypedRecord
