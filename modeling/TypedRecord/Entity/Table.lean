import TypedRecord.Entity.Basic

/-!
# Columns by name

A name is looked up among the own columns of an entity first, then in the entities mixed in, in
order, and the first column of the name is the one. The names, the values and the columns that can
be written all follow that order. On the wire the hidden columns are looked up as well, after all
others.
-/
namespace TypedRecord

/-- Which columns are looked up. -/
inductive Scope where
  /-- Those that are addressed by name. -/
  | table
  /-- The hidden ones as well. -/
  | wire
deriving DecidableEq, Repr

namespace Scope

/-- The hidden columns that are looked up. -/
def reveal (scope : Scope) (hidden : List (String × Cell)) : List (String × Cell) :=
  match scope with
  | .table => []
  | .wire => hidden

end Scope

namespace Object

mutual

/-- The names of an entity in table order. -/
def names : Object → List String
  | mk _ columns mixins _ => Entries.keys columns ++ mixedNames mixins

/-- The names of mixed in entities in order. -/
def mixedNames : List Object → List String
  | [] => []
  | object :: rest => object.names ++ mixedNames rest

end

mutual

/-- What the column of a name holds. -/
def cell? (scope : Scope) (name : String) : Object → Option Cell
  | mk _ columns mixins hidden =>
    (Entries.find? columns name).or
      ((mixedCell? scope name mixins).or (Entries.find? (scope.reveal hidden) name))

/-- What the column of a name holds in mixed in entities. -/
def mixedCell? (scope : Scope) (name : String) : List Object → Option Cell
  | [] => none
  | object :: rest => (object.cell? scope name).or (mixedCell? scope name rest)

end

mutual

/-- The entity with the column of a name replaced; an entity without such a column stays the same.
-/
def setCell (scope : Scope) (name : String) (cell : Cell) : Object → Object
  | mk type columns mixins hidden =>
    if Entries.contains columns name then mk type (Entries.replace columns name cell) mixins hidden
    else if (mixedCell? scope name mixins).isSome then
      mk type columns (setMixedCell scope name cell mixins) hidden
    else match scope with
      | .table => mk type columns mixins hidden
      | .wire => mk type columns mixins (Entries.replace hidden name cell)

/-- Mixed in entities with the first column of a name replaced. -/
def setMixedCell (scope : Scope) (name : String) (cell : Cell) : List Object → List Object
  | [] => []
  | object :: rest =>
    if (object.cell? scope name).isSome then object.setCell scope name cell :: rest
    else object :: setMixedCell scope name cell rest

end

end Object

mutual

/-- The values of an entity under its names in table order. -/
def Object.values : Object → List (String × Value)
  | .mk _ columns mixins _ => Cell.columnValues columns ++ Object.mixedValues mixins

/-- The values of columns under their names. -/
def Cell.columnValues : List (String × Cell) → List (String × Value)
  | [] => []
  | (name, cell) :: rest => (name, cell.toValue) :: Cell.columnValues rest

/-- The value that stands for what a column holds: an entity is the mapping of its values. -/
def Cell.toValue : Cell → Value
  | .plain content => content.toValue
  | .entity _ object => .map (Entries.ofFirst object.values)
  | .vacant _ => .null

/-- The values of mixed in entities under their names. -/
def Object.mixedValues : List Object → List (String × Value)
  | [] => []
  | object :: rest => object.values ++ Object.mixedValues rest

end

namespace Object

/-- The value of the column of a name. -/
def value? (object : Object) (name : String) : Option Value :=
  (object.cell? .table name).map Cell.toValue

/-- The text of the column of a name. -/
def text? (object : Object) (name : String) : Option String :=
  (object.value? name).bind Value.asText?

/-- The values of an entity under its names. -/
def toMapping (object : Object) : Mapping := Entries.ofFirst object.values

/-- The values of some names; a name without a column is left out. -/
def select (object : Object) (names : List String) : Mapping :=
  Entries.ofList (names.filterMap fun name => (object.value? name).map fun value => (name, value))

end Object

end TypedRecord
