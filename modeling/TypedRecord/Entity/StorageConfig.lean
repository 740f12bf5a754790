/-!
# Storage metadata

What a storage layer has to know about an entity type before it sees an entity: where entities of
the type are kept, which fields identify, label and delete them, and in which of its services they
take part.
-/
namespace TypedRecord

/-- The storage metadata of an entity type. -/
structure StorageConfig where
  /-- The name of the type. -/
  objectType : String
  /-- The collection that entities of the type are kept in. -/
  collection : String
  /-- The field that identifies an entity. -/
  idField : String
  /-- The field that labels an entity. -/
  labelField : Option String
  /-- The field that marks a deleted entity. -/
  softDeleteField : Option String
  /-- The fields of a partial load. -/
  partialLoadFields : List String
  /-- The fields of a full load. -/
  fullLoadFields : List String
  /-- Whether there is work before an entity is saved. -/
  preSave : Bool
  /-- Whether there is work after an entity is saved. -/
  postSave : Bool
  /-- Whether there is work after an entity is updated. -/
  postUpdate : Bool
  /-- Whether there is work after an entity is loaded. -/
  postLoad : Bool
  /-- Whether changes are stamped. -/
  trackable : Bool
  /-- Whether entities belong to tenants. -/
  multitenant : Bool
  /-- Whether entities may be cached. -/
  cacheable : Bool
  /-- Whether references are kept up. -/
  refOps : Bool
  /-- Whether new entities are announced. -/
  notifyNew : Bool
  /-- Whether updates are announced. -/
  notifyUpdates : Bool
deriving DecidableEq, Repr

namespace StorageConfig

/-- The metadata of a type kept in a collection of the same name and identified by `Id`. -/
def ofType (objectType : String) : StorageConfig where
  objectType := objectType
  collection := objectType
  idField := "Id"
  labelField := none
  softDeleteField := none
  partialLoadFields := []
  fullLoadFields := []
  preSave := false
  postSave := false
  postUpdate := false
  postLoad := false
  trackable := false
  multitenant := false
  cacheable := false
  refOps := false
  notifyNew := false
  notifyUpdates := false

/-- The metadata with another collection. -/
def withCollection (config : StorageConfig) (collection : String) : StorageConfig :=
  { config with collection := collection }

/-- The metadata with a field that labels. -/
def withLabelField (config : StorageConfig) (field : String) : StorageConfig :=
  { config with labelField := some field }

/-- The metadata with a field that marks deleted entities. -/
def withSoftDeleteField (config : StorageConfig) (field : String) : StorageConfig :=
  { config with softDeleteField := some field }

/-- The metadata of a type whose changes are stamped. -/
def tracked (config : StorageConfig) : StorageConfig := { config with trackable := true }

/-- The metadata of a type whose entities belong to tenants. -/
def tenanted (config : StorageConfig) : StorageConfig := { config with multitenant := true }

/-- The metadata of a type whose entities may be cached. -/
def cached (config : StorageConfig) : StorageConfig := { config with cacheable := true }

end StorageConfig

end TypedRecord
