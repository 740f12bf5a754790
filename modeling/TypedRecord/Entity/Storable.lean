import TypedRecord.Entity.Component
import TypedRecord.Progress

/-!
# Stored entities

A storage layer works with entities of any type that says how it is stored. It asks for the identity
and the label of an entity, leaves deleted ones out of what it lists, and lets the entity take part
in saving and loading; no type does more there than agree.
-/
namespace TypedRecord

/-- A moment in which an entity takes part in what a storage layer does. -/
inductive Hook where
  /-- Before it is saved. -/
  | preSave
  /-- After it is saved. -/
  | postSave
  /-- After it is loaded. -/
  | postLoad
deriving DecidableEq, Repr

namespace Object

/-- The identity of a stored entity. -/
def storedIdentity? (object : Object) : Option String :=
  object.type.storage.bind fun storage => object.text? storage.identity

/-- A stored entity with its identity replaced. -/
def setStoredIdentity (object : Object) (ident : String) : Object :=
  match object.type.storage with
  | none => object
  | some storage => object.put .text storage.identity ident

/-- The label of a stored entity, when it has a field for it that holds a text. -/
def label? (object : Object) : Option String :=
  (object.type.storage.bind fun storage => storage.config.labelField).bind object.text?

/-- Whether an entity is marked as deleted. -/
def isDeleted (object : Object) : Bool := object.deleted?.getD false

/-- An entity after it took part in a moment. -/
def runHook (object : Object) : Hook → Progress Object
  | .preSave | .postSave | .postLoad => .complete object

/-- The entities that are not deleted, each with its identity. -/
def live (objects : List Object) : List (Object × String) :=
  (objects.filter fun object => !object.isDeleted).map fun object =>
    (object, object.storedIdentity?.getD "")

/-- The entities that are not deleted under their identities; of two with one identity the later one
counts. -/
def liveByIdentity (objects : List Object) : Entries Object :=
  Entries.ofList ((live objects).map fun pair => (pair.2, pair.1))

end Object

end TypedRecord
