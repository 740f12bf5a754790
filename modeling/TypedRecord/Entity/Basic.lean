import TypedRecord.Entity.Content
import TypedRecord.Entity.StorageConfig

/-!
# Entities

An entity is a type with the fields of one instance. Its columns are addressed by name; the columns
of the entities mixed into it are addressed as if they were its own, after its own and in the order
of mixing. Hidden columns are not addressed by name and only travel on the wire. A column holds
plain content or another entity, of a type that is declared with the column.
-/
namespace TypedRecord

/-- How a column holds an entity. -/
inductive Holding where
  /-- As a part of itself. -/
  | value
  /-- By reference. -/
  | reference
  /-- By reference, or not at all. -/
  | optional
deriving DecidableEq, Repr

/-- The entity type declared with a column. Two types may share a name; the identifier tells them
apart. -/
structure Declared where
  /-- The identifier of the type. -/
  ident : String
  /-- The name under which the type is registered. -/
  name : String
  /-- How the entity is held. -/
  holding : Holding
deriving DecidableEq, Repr

/-- How entities of a type are stored. -/
structure Storage where
  /-- The storage metadata. -/
  config : StorageConfig
  /-- The field whose text is the identity of an entity. -/
  identity : String
deriving DecidableEq, Repr

/-- What entities of a type can do, apart from their fields. -/
structure EntityType where
  /-- The identifier of the type. -/
  ident : String
  /-- The name under which the type is registered. -/
  name : String
  /-- Whether fields can be assigned by name. -/
  hydratable : Bool
  /-- The properties that travel on the wire in their order, when the type travels at all. -/
  traversal : Option (List String)
  /-- How entities are stored, when they are. -/
  storage : Option Storage
  /-- Whether entities may be asked to take an audit stamp. -/
  audited : Bool
deriving DecidableEq, Repr

namespace EntityType

/-- The properties that travel on the wire. -/
def properties (type : EntityType) : List String := type.traversal.getD []

/-- The type declared with a column that holds an entity in some way. -/
def held (type : EntityType) (holding : Holding) : Declared := ⟨type.ident, type.name, holding⟩

end EntityType

mutual

/-- An entity. -/
inductive Object where
  /-- An entity of a type, by its own columns, the entities mixed in and its hidden columns. -/
  | mk (type : EntityType) (columns : List (String × Cell)) (mixins : List Object)
      (hidden : List (String × Cell))

/-- What a column holds. -/
inductive Cell where
  /-- Plain content. -/
  | plain (content : Content)
  /-- An entity. -/
  | entity (declared : Declared) (object : Object)
  /-- No entity, where there may be one. -/
  | vacant (declared : Declared)

end

namespace Object

/-- The type of an entity. -/
def type : Object → EntityType
  | mk type _ _ _ => type

/-- The own columns of an entity. -/
def columns : Object → List (String × Cell)
  | mk _ columns _ _ => columns

/-- The entities mixed into an entity. -/
def mixins : Object → List Object
  | mk _ _ mixins _ => mixins

/-- The hidden columns of an entity. -/
def hidden : Object → List (String × Cell)
  | mk _ _ _ hidden => hidden

mutual

/-- The part of an entity that is of a type: the entity itself, or the first one mixed in. -/
def component? (ident : String) : Object → Option Object
  | mk type columns mixins hidden =>
    if type.ident = ident then some (mk type columns mixins hidden)
    else mixedComponent? ident mixins

/-- The first part of mixed in entities that is of a type. -/
def mixedComponent? (ident : String) : List Object → Option Object
  | [] => none
  | object :: rest => (object.component? ident).or (mixedComponent? ident rest)

end

mutual

/-- An entity with the part of a type changed. -/
def updateComponent (ident : String) (change : Object → Object) : Object → Object
  | mk type columns mixins hidden =>
    if type.ident = ident then change (mk type columns mixins hidden)
    else mk type columns (updateMixedComponent ident change mixins) hidden

/-- Mixed in entities with the first part of a type changed. -/
def updateMixedComponent (ident : String) (change : Object → Object) : List Object → List Object
  | [] => []
  | object :: rest =>
    if (object.component? ident).isSome then object.updateComponent ident change :: rest
    else object :: updateMixedComponent ident change rest

end

end Object

mutual

/-- An entity of the same type before anything is assigned. -/
def Object.reset : Object → Object
  | .mk type columns mixins hidden =>
    .mk type (Cell.resetColumns columns) (Object.resetMixins mixins) (Cell.resetColumns hidden)

/-- What a column of the same type holds before anything is assigned. -/
def Cell.reset : Cell → Cell
  | .plain content => .plain content.reset
  | .entity declared object =>
    if declared.holding = .optional then .vacant declared else .entity declared object.reset
  | .vacant declared => .vacant declared

/-- Columns before anything is assigned. -/
def Cell.resetColumns : List (String × Cell) → List (String × Cell)
  | [] => []
  | (name, cell) :: rest => (name, cell.reset) :: Cell.resetColumns rest

/-- Mixed in entities before anything is assigned. -/
def Object.resetMixins : List Object → List Object
  | [] => []
  | object :: rest => object.reset :: Object.resetMixins rest

end

end TypedRecord
