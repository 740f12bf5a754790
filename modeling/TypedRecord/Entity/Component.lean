import TypedRecord.Entity.Table

/-!
# Components

A component is a small entity that others mix in for a service: an identity, a tenant, a mark of
deletion or the stamps of an audit. A service looks for its component in an entity by its type, and
what it changes there is seen through the names of the entity as well.

An audit stamp names a user and a time. The first stamp that an entity gets also says who created
it; an entity is new as long as nobody is recorded as its creator. Without a user nothing is
stamped.
-/
namespace TypedRecord

/-- The stamps of an entity. -/
structure Audit where
  /-- Who created it, or nobody. -/
  createdBy : String
  /-- Who updated it last. -/
  updatedBy : String
  /-- When it was created. -/
  createdAt : Timestamp
  /-- When it was updated last. -/
  updatedAt : Timestamp
deriving DecidableEq

namespace Audit

/-- Whether nobody is recorded as the creator. -/
def isNew (audit : Audit) : Bool := audit.createdBy.isEmpty

/-- The stamps after one more by a user at a time. -/
def stamp (user : Option String) (time : Timestamp) (audit : Audit) : Audit :=
  match user with
  | none => audit
  | some user =>
    if audit.isNew then ⟨user, user, time, time⟩
    else { audit with updatedBy := user, updatedAt := time }

end Audit

namespace EntityType

/-- The type of a component with some properties. -/
def ofComponent (name : String) (properties : List String) (audited : Bool) : EntityType :=
  ⟨name, name, true, some properties, none, audited⟩

/-- The type of identities. -/
def identity : EntityType := ofComponent "IdentityInfo" ["Id"] false

/-- The type of tenants. -/
def tenant : EntityType := ofComponent "TenantInfo" ["TenantId", "TenantName"] false

/-- The type of audit stamps. -/
def tracking : EntityType :=
  ofComponent "TrackingInfo" ["CreatedBy", "UpdatedBy", "CreatedAt", "UpdatedAt"] true

/-- The type of marks of deletion. -/
def deletion : EntityType := ofComponent "DeletionInfo" ["Deleted"] false

end EntityType

namespace Object

/-- An identity. -/
def identity (ident : String) : Object :=
  .mk .identity [("Id", .plain (.scalar .text ident))] [] []

/-- A tenant that is not named yet. -/
def tenant : Object :=
  .mk .tenant [("TenantId", .plain (.ofKind .text)), ("TenantName", .plain (.ofKind .text))] [] []

/-- The stamps of an entity that has none. -/
def tracking : Object :=
  .mk .tracking [("CreatedBy", .plain (.ofKind .text)), ("UpdatedBy", .plain (.ofKind .text)),
    ("CreatedAt", .plain (.ofKind .timestamp)), ("UpdatedAt", .plain (.ofKind .timestamp))] [] []

/-- The mark of an entity that is not deleted. -/
def deletion : Object := .mk .deletion [("Deleted", .plain (.ofKind .bool))] [] []

/-- The data of a kind in the column of a name. -/
def get? (object : Object) (kind : Kind) (name : String) : Option kind.Carrier :=
  (object.value? name).bind kind.ofValue?

/-- An entity with data of a kind in the column of a name. -/
def put (object : Object) (kind : Kind) (name : String) (data : kind.Carrier) : Object :=
  object.setCell .table name (.plain (.scalar kind data))

/-- The text that identifies an entity with an identity. -/
def identity? (object : Object) : Option String :=
  (object.component? EntityType.identity.ident).bind fun part => part.get? .text "Id"

/-- An entity with its identity replaced. -/
def setIdentity (object : Object) (ident : String) : Object :=
  object.updateComponent EntityType.identity.ident fun part => part.put .text "Id" ident

/-- An entity with a fresh identity in place of an empty one. -/
def ensureIdentity (object : Object) (fresh : String) : Object :=
  if object.identity? = some "" then object.setIdentity fresh else object

/-- The identifier and the name of the tenant that an entity belongs to. -/
def tenant? (object : Object) : Option (String × String) := do
  let part ← object.component? EntityType.tenant.ident
  let ident ← part.get? .text "TenantId"
  let name ← part.get? .text "TenantName"
  return (ident, name)

/-- An entity that belongs to another tenant. -/
def setTenant (object : Object) (ident name : String) : Object :=
  object.updateComponent EntityType.tenant.ident fun part =>
    (part.put .text "TenantId" ident).put .text "TenantName" name

/-- Whether an entity with a mark of deletion is deleted. -/
def deleted? (object : Object) : Option Bool :=
  (object.component? EntityType.deletion.ident).bind fun part => part.get? .bool "Deleted"

/-- An entity marked as deleted or not. -/
def setDeleted (object : Object) (deleted : Bool) : Object :=
  object.updateComponent EntityType.deletion.ident fun part => part.put .bool "Deleted" deleted

/-- The stamps of an entity that takes them. -/
def audit? (object : Object) : Option Audit := do
  let part ← object.component? EntityType.tracking.ident
  let createdBy ← part.get? .text "CreatedBy"
  let updatedBy ← part.get? .text "UpdatedBy"
  let createdAt ← part.get? .timestamp "CreatedAt"
  let updatedAt ← part.get? .timestamp "UpdatedAt"
  return ⟨createdBy, updatedBy, createdAt, updatedAt⟩

/-- An entity with other stamps. -/
def setAudit (object : Object) (audit : Audit) : Object :=
  object.updateComponent EntityType.tracking.ident fun part =>
    (((part.put .text "CreatedBy" audit.createdBy).put .text "UpdatedBy" audit.updatedBy).put
      .timestamp "CreatedAt" audit.createdAt).put .timestamp "UpdatedAt" audit.updatedAt

/-- An entity stamped by a user at a time; one that takes no stamps stays the same. -/
def stamp (object : Object) (user : Option String) (time : Timestamp) : Object :=
  match object.audit? with
  | none => object
  | some audit => object.setAudit (audit.stamp user time)

end Object

/-- An update stamped by a user at a time: the entries that say who updates and when. -/
def Mapping.stamp (mapping : Mapping) (user : Option String) (time : Timestamp) : Mapping :=
  match user with
  | none => mapping
  | some user =>
    Entries.insert (Entries.insert mapping "UpdatedBy" (.text user)) "UpdatedAt" (.timestamp time)

end TypedRecord
