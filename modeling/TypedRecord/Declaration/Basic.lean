import TypedRecord.Declaration.PropertyName

/-!
# Declarations of entity types

A declaration lists the fields of a type. A field is left out, or mixed in whole, or is a column
with a property name. A declaration is accepted when its shape allows fields, it has no type
parameters, no field is both mixed in and named, and no two columns have one property name;
otherwise the first of these that is violated is the error. Fields that are left out are not looked
at.
-/
namespace TypedRecord

/-- A field of a declaration. -/
structure FieldDeclaration where
  /-- The identifier. -/
  ident : String
  /-- A property name of its own. -/
  rename : Option String
  /-- Whether the columns of the field are mixed in. -/
  flatten : Bool
  /-- Whether the field is left out. -/
  skip : Bool
deriving DecidableEq, Repr

namespace FieldDeclaration

/-- The property name of a column. -/
def property (field : FieldDeclaration) : String :=
  field.rename.getD (PropertyName.ofIdentifier field.ident)

end FieldDeclaration

/-- The shapes of types. -/
inductive Shape where
  /-- Fields with names. -/
  | named
  /-- Fields without names. -/
  | tuple
  /-- No fields. -/
  | unit
  /-- Alternatives. -/
  | alternatives
deriving DecidableEq, Repr

/-- A declaration of an entity type. -/
structure TypeDeclaration where
  /-- The identifier. -/
  ident : String
  /-- A registered name of its own. -/
  name : Option String
  /-- Whether entities travel on the wire. -/
  serializable : Bool
  /-- Whether entities are stored. -/
  storable : Bool
  /-- Whether there are type parameters. -/
  generic : Bool
  /-- The shape. -/
  shape : Shape
  /-- The fields in order. -/
  fields : List FieldDeclaration
deriving DecidableEq, Repr

/-- Why a declaration is rejected. -/
inductive DeclarationError where
  /-- The shape has no named fields. -/
  | shape
  /-- There are type parameters. -/
  | generic
  /-- A field is mixed in and named. -/
  | flattenRenamed
  /-- Two columns have one property name. -/
  | duplicate (property : String)
deriving DecidableEq, Repr

namespace DeclarationError

/-- The wording of the error. -/
def message : DeclarationError → String
  | .shape => "unsupported shape"
  | .generic => "Hydrate cannot be derived for generic types"
  | .flattenRenamed => "\x60flatten\x60 and \x60rename\x60 cannot be combined"
  | .duplicate property => "duplicate property name \x60" ++ property ++ "\x60"

end DeclarationError

/-- The columns and the mixed in fields of a declaration. -/
structure FieldTable where
  /-- The property names of the columns in order. -/
  own : List String
  /-- The identifiers of the fields mixed in, in order. -/
  flat : List String
deriving DecidableEq, Repr

namespace FieldTable

/-- The table of fields that follow columns of some names. -/
def ofFields (seen : List String) : List FieldDeclaration → Except DeclarationError FieldTable
  | [] => .ok ⟨[], []⟩
  | field :: rest =>
    if field.skip then ofFields seen rest
    else if field.flatten then
      if field.rename.isSome then .error .flattenRenamed
      else (ofFields seen rest).map fun table => ⟨table.own, field.ident :: table.flat⟩
    else if seen.contains field.property then .error (.duplicate field.property)
    else (ofFields (field.property :: seen) rest).map fun table =>
      ⟨field.property :: table.own, table.flat⟩

end FieldTable

/-- The name of a declared type. -/
inductive TypeName where
  /-- The name the declaration gives. -/
  | explicit (name : String)
  /-- The identifier within the module of the declaration. -/
  | qualified (ident : String)
deriving DecidableEq, Repr

namespace TypeDeclaration

/-- The name of the declared type. -/
def typeName (declaration : TypeDeclaration) : TypeName :=
  match declaration.name with
  | some name => .explicit name
  | none => .qualified declaration.ident

/-- The table of an accepted declaration. -/
def table (declaration : TypeDeclaration) : Except DeclarationError FieldTable :=
  if declaration.shape ≠ .named then .error .shape
  else if declaration.generic then .error .generic
  else FieldTable.ofFields [] declaration.fields

end TypeDeclaration

end TypedRecord
