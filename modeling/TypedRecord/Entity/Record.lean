import TypedRecord.Codec
import TypedRecord.Entity.Table
import TypedRecord.Progress

/-!
# Entities on the wire

An entity type lists the properties that travel. Writing makes a record of them, with a nested
entity as a record of its own, and no entry for an entity that is absent. Reading goes through the
properties in their order and stops at the first that does not fit. A property that the mapping does
not have, or has as null, keeps what it holds, so a mapping of some properties is an update; a
nested entity is read into the entity that is already there. Whatever else the mapping holds is not
looked at.
-/
namespace TypedRecord

/-- The record of some properties out of the values that can travel. -/
def Mapping.ofProperties (properties : List String) (values : List (String × Option Value)) :
    Mapping :=
  Entries.ofList (properties.filterMap fun name =>
    (Entries.find? values name).join.map fun value => (name, value))

mutual

/-- The values of an entity that can travel, under the names of their columns. -/
def Object.wireValues : Object → List (String × Option Value)
  | .mk _ columns mixins hidden =>
    Cell.columnWireValues columns ++
      (Object.mixedWireValues mixins ++ Cell.columnWireValues hidden)

/-- The values of columns that can travel. -/
def Cell.columnWireValues : List (String × Cell) → List (String × Option Value)
  | [] => []
  | (name, cell) :: rest => (name, cell.wireValue?) :: Cell.columnWireValues rest

/-- The value that travels for what a column holds. -/
def Cell.wireValue? : Cell → Option Value
  | .plain content => some content.toValue
  | .entity _ object => some (.map (Mapping.ofProperties object.type.properties object.wireValues))
  | .vacant _ => none

/-- The values of mixed in entities that can travel. -/
def Object.mixedWireValues : List Object → List (String × Option Value)
  | [] => []
  | object :: rest => object.wireValues ++ Object.mixedWireValues rest

end

namespace Object

/-- The record of an entity. -/
def record (object : Object) : Mapping :=
  Mapping.ofProperties object.type.properties object.wireValues

/-- The entity that a nested mapping is read into at a column: the one that is there, or a new one
of the type where there is none. -/
def nested? (object : Object) : Cell → Option (Declared × Object)
  | .plain _ => none
  | .entity declared nested => some (declared, nested)
  | .vacant declared => (object.component? declared.ident).map fun blank => (declared, blank.reset)

/-- An entity with a value loaded into plain content at a property. -/
def load (object : Object) (name : String) (content : Content) (value : Value) :
    Progress Object :=
  .ofStep object ((content.load name value).map fun content =>
    object.setCell .wire name (.plain content))

mutual

/-- An entity with the entry of a property read, when a mapping has one. -/
def readEntry (name : String) (object : Object) : List (String × Value) → Progress Object
  | [] => .complete object
  | (key, value) :: rest =>
    if key = name then readValue name object value else readEntry name object rest

/-- An entity with a value read at a property. -/
def readValue (name : String) (object : Object) : Value → Progress Object
  | .null => .complete object
  | .map entries => match object.cell? .wire name with
    | none => .complete object
    | some (.plain content) => object.load name content (.map entries)
    | some cell => match object.nested? cell with
      | none => .complete object
      | some (declared, nested) =>
        ((Progress.each nested.type.properties
          (fun state property => readEntry property state entries) nested).within name).map
            fun nested => object.setCell .wire name (.entity declared nested)
  | value => match object.cell? .wire name with
    | none => .complete object
    | some (.plain content) => object.load name content value
    | some _ => .stop object (.mismatch (.property name) "map" value.typeName)

end

/-- An entity with the properties of a mapping read. -/
def read (object : Object) (data : Mapping) : Progress Object :=
  Progress.each object.type.properties (fun state property => readEntry property state data) object

/-- The bytes of an entity. -/
def toBytes (codec : Codec) (object : Object) : Except Error (List UInt8) :=
  match codec.encode (.map object.record) with
  | .ok bytes => .ok bytes
  | .error error => .error (Cause.codec error).error

/-- The record of a payload. -/
def recordOfBytes (codec : Codec) (bytes : List UInt8) : Except Error Mapping :=
  match codec.decode bytes with
  | .ok (.map record) => .ok record
  | .ok other => .error (Cause.notARecord codec.format.name other.typeName).error
  | .error error => .error (Cause.codec error).error

/-- An entity with the record of a payload read. -/
def readBytes (codec : Codec) (bytes : List UInt8) (object : Object) : Progress Object :=
  match recordOfBytes codec bytes with
  | .ok record => object.read record
  | .error error => .stop object error

end Object

end TypedRecord
