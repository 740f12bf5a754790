import TypedRecord.Entity.Component
import TypedRecord.Entity.Record

/-!
# Sample entities

Entity types of different makes: flat ones, one with every kind of column, one with components, one
that nests itself, and some that lack a capability or go by the name of another type. The name of a
type is its identifier within a scope.
-/
namespace TypedRecord.Sample

/-- A type of a scope whose fields can be assigned. -/
def ofScope (scope ident : String) (traversal : Option (List String)) : EntityType :=
  ⟨ident, scope ++ "::" ++ ident, true, traversal, none, false⟩

/-- A column of a kind. -/
def column (name : String) (kind : Kind) : String × Cell := (name, .plain (.ofKind kind))

/-- A column of data of a kind in order. -/
def series (name : String) (kind : Kind) : String × Cell := (name, .plain (.array kind []))

/-- A postal address. -/
def address (scope : String) : Object :=
  .mk { ofScope scope "Address" (some ["Street", "City"]) with audited := true }
    [column "Street" .text, column "City" .text] [] []

/-- An object that is nested in others. -/
def nestedObject (scope : String) : Object :=
  .mk (ofScope scope "NestedObject" (some ["NewChild", "NewChild2"]))
    [column "NewChild" .text, column "NewChild2" .text] [] []

/-- An object that holds two others by reference. -/
def testObject (scope : String) : Object :=
  let nested := nestedObject scope
  let held := nested.type.held .reference
  .mk (ofScope scope "TestObject" (some ["Name", "Age", "DiffProp", "SourceSub", "RenamedSub"]))
    [column "Name" .text, column "Age" .int32, column "DiffProp" .text,
      ("SourceSub", .entity held nested), ("RenamedSub", .entity held nested)] [] []

/-- An object that does not travel. -/
def note (scope : String) : Object :=
  .mk (ofScope scope "Opaque" none) [column "Note" .text] [] []

/-- The storage of profiles. -/
def profileStorage (name : String) : Storage :=
  ⟨(((((StorageConfig.ofType name).withCollection "profiles").withLabelField "Name")
    |>.withSoftDeleteField "Deleted").tracked).tenanted, "Id"⟩

/-- The type of profiles. -/
def profileType (scope : String) : EntityType :=
  let base := ofScope scope "Profile" (some
    ["Id", "TenantId", "TenantName", "CreatedBy", "UpdatedBy", "CreatedAt", "UpdatedAt", "Deleted",
      "Name", "Age", "Visits", "Ratio", "Score", "Active", "Avatar", "Thumbnail", "Joined", "Tags",
      "Home", "Work", "Counters"])
  { base with storage := some (profileStorage base.name), audited := true }

/-- A person's profile, with all components, one column of most kinds and hidden counters. -/
def profile (scope ident : String) : Object :=
  let home := address scope
  .mk (profileType scope)
    [column "Name" .text, column "Age" .int32, column "Visits" .int64, column "Ratio" .single,
      column "Score" .double, column "Active" .bool, column "Avatar" .bytes,
      column "Thumbnail" .bytes, column "Joined" .timestamp, series "Tags" .text,
      ("Home", .entity (home.type.held .value) home),
      ("Work", .entity (home.type.held .reference) home)]
    [.identity ident, .tenant, .tracking, .deletion]
    [("Counters", .plain (.table .int64 []))]

/-- The type of tickets. -/
def ticketType (scope : String) : EntityType :=
  let base := ofScope scope "Ticket" (some
    ["Id", "CreatedBy", "UpdatedBy", "CreatedAt", "UpdatedAt", "Title", "Type", "Labels"])
  { base with
    storage := some ⟨((StorageConfig.ofType base.name).withLabelField "Title").tracked, "Id"⟩
    audited := true }

/-- A ticket, whose priority does not travel. -/
def ticket (scope ident : String) : Object :=
  .mk (ticketType scope)
    [column "Title" .text, column "Prio" .uint32, column "Type" .text, series "Labels" .text]
    [.identity ident, .tracking] []

/-- The type of objects with every kind of column. -/
def kindsType (scope : String) : EntityType :=
  let base := ofScope scope "Kinds" (some ["Flag", "Float32", "Float64", "Raw", "At", "Maps"])
  { base with
    storage := some ⟨((StorageConfig.ofType base.name).withLabelField "Any").cached, "Text"⟩ }

/-- An object with every kind of column. -/
def kinds (scope : String) : Object :=
  .mk (kindsType scope)
    [column "Flag" .bool, column "Int32" .int32, column "Int64" .int64, column "Uint32" .uint32,
      column "Uint64" .uint64, column "Float32" .single, column "Float64" .double,
      column "Text" .text, column "At" .timestamp, column "Blob" .bytes, column "Raw" .bytes,
      column "Map" .map, column "Any" .any, column "OptText" (.option .text),
      column "OptInt" (.option .int32), column "OptFlag" (.option .bool),
      column "OptAt" (.option .timestamp), column "OptMap" (.option .map),
      column "OptTexts" (.option .texts), series "Texts" .text, series "Maps" .map] [] []

/-- The type of nodes. -/
def nodeType (scope : String) : EntityType := ofScope scope "Node" (some ["Label", "Child"])

/-- A node, which may have a node as its child. -/
def node (scope : String) : Object :=
  .mk (nodeType scope)
    [column "Label" .text, ("Child", .vacant ((nodeType scope).held .optional))] [] []

/-- A type that goes by the name of an address. -/
def impostor (scope : String) : Object :=
  .mk { ofScope scope "Address" none with ident := "Impostor" }
    [column "Street" .text, column "Zip" .int32] [] []

/-- A type of a name without any capability. -/
def inert (ident name : String) : Object := .mk ⟨ident, name, false, none, none, false⟩ [] [] []

end TypedRecord.Sample
