import TypedRecord.Entity.Record
import TypedRecord.Renaming.Apply

/-!
# Registry

A registry maps names to ways of making entities. A name is registered once: a second registration
is refused and changes nothing, whatever it asks for. Making an entity by its name gives a blank
one, and making a collection gives as many as are asked for.
-/
namespace TypedRecord

/-- A way of making entities of a type. -/
structure Factory where
  /-- An entity of the type before anything is assigned. -/
  blank : Object
  /-- Whether collections are made as well. -/
  collects : Bool

/-- The factories of the registered names. -/
abbrev Registry := Entries Factory

namespace Registry

/-- The registry with a type under its name. -/
def register (registry : Registry) (factory : Factory) : Except Error Registry :=
  let name := factory.blank.type.name
  if Entries.contains registry name then .error (.refuse (.alreadyRegistered name))
  else .ok (Entries.insert registry name factory)

/-- The factory of a name. -/
def factory (registry : Registry) (name : String) : Except Error Factory :=
  match Entries.find? registry name with
  | some factory => .ok factory
  | none => .error (Cause.missingType name).error

/-- A blank entity of a name. -/
def create (registry : Registry) (name : String) : Except Error Object :=
  (registry.factory name).map Factory.blank

/-- Blank entities of a name. -/
def createCollection (registry : Registry) (name : String) (length : Nat) :
    Except Error (List Object) :=
  match registry.factory name with
  | .error error => .error error
  | .ok factory =>
    if factory.collects then .ok (List.replicate length factory.blank)
    else .error (.refuse (.noCollections name))

/-- An entity of a name with the properties of a mapping read after its keys are renamed. -/
def createFrom (registry : Registry) (name : String) (data : Mapping) (rules : Rules) :
    Except Error Object :=
  match registry.create name with
  | .error error => .error error
  | .ok object =>
    if object.type.traversal.isSome then
      (object.read (if rules.isEmpty then data else rules.apply data)).result
    else .error (Cause.notSerializable name).error

end Registry

namespace Object

/-- An entity taken as one of a declared type at a property. -/
def downcast (property : String) (declared : Declared) (object : Object) : Except Error Object :=
  if object.type.ident = declared.ident then .ok object
  else .error (.mismatch (.property property) declared.name object.type.name)

end Object

end TypedRecord
