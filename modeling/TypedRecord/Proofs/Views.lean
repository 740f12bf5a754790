import TypedRecord.Proofs.Runs

/-!
# Columns along paths

A path of names leads from an entity into the entities that the maps of a mapping go to: those that
are read into, or those that a registry makes. What the columns at the end of such paths are for is
all that counts for the errors of a mapping. A run of assignments leaves it, since the registry
makes the same entities before and after.
-/
namespace TypedRecord

open Entries

/-- How the column of a name is found in an entity, and the entity that a map in a column goes to.
-/
structure View where
  /-- The column of a name. -/
  cell? : Object → String → Option Cell
  /-- The entity that a map in a column goes to. -/
  inner? : Object → Cell → Option Object

namespace View

/-- The columns of the properties that travel, and the entities that are read into. -/
def reading : View where
  cell? object name := if name ∈ object.type.properties then object.cell? .wire name else none
  inner? object cell := (object.nested? cell).map Prod.snd

/-- The columns of the table, and the entities that a registry makes. -/
def building (registry : Registry) : View where
  cell? object name := object.cell? .table name
  inner? _ cell := cell.declared?.bind fun declared => (registry.create declared.name).toOption

/-- The entity at the end of a path. -/
def follow? (view : View) : Object → List String → Option Object
  | object, [] => some object
  | object, name :: rest =>
    ((view.cell? object name).bind (view.inner? object)).bind fun inner => view.follow? inner rest

/-- The column of a name at the end of a path. -/
def column? (view : View) (object : Object) (path : List String) (name : String) : Option Cell :=
  (view.follow? object path).bind fun reached => view.cell? reached name

variable {view : View} {object inner : Object} {cell : Cell} {name key : String}
  {path : List String}

/-- A property is found in its column on the wire. -/
theorem cell?_reading (named : name ∈ object.type.properties) :
    reading.cell? object name = object.cell? .wire name := if_pos named

/-- A path that starts with a name goes on in the entity that its column leads to. -/
theorem column?_cons (view : View) (object : Object) (name : String) (path : List String)
    (key : String) : view.column? object (name :: path) key =
      ((view.cell? object name).bind (view.inner? object)).bind fun inner =>
        view.column? inner path key := by
  rw [column?, follow?, Option.bind_assoc]
  rfl

/-- A path that goes through a column goes on in the entity there. -/
theorem column?_cons_of_inner? (held : view.cell? object name = some cell)
    (inside : view.inner? object cell = some inner) (path : List String) (key : String) :
    view.column? object (name :: path) key = view.column? inner path key := by
  rw [column?_cons, held, Option.bind_some, inside, Option.bind_some]

/-- Something is so everywhere below an entity when it is of every column at the end of a path. -/
def Everywhere (view : View) (good : String → Cell → Prop) (object : Object) : Prop :=
  ∀ path name cell, view.column? object path name = some cell → good name cell

namespace Everywhere

variable {good : String → Cell → Prop}

/-- What is so everywhere below an entity is so of its columns. -/
theorem here (everywhere : view.Everywhere good object)
    (held : view.cell? object name = some cell) : good name cell :=
  everywhere [] name cell held

/-- What is so everywhere below an entity is so everywhere below the one that a column leads to. -/
theorem below (everywhere : view.Everywhere good object)
    (held : view.cell? object name = some cell) (inside : view.inner? object cell = some inner) :
    view.Everywhere good inner := fun path key there found =>
  everywhere (name :: path) key there ((column?_cons_of_inner? held inside path key).trans found)

/-- What is so of every column, and everywhere below the entity that it leads to, is so everywhere.
-/
theorem of_cells (cells : ∀ name cell, view.cell? object name = some cell → good name cell ∧
    ∀ inner, view.inner? object cell = some inner → view.Everywhere good inner) :
    view.Everywhere good object := by
  intro path key there found
  cases path with
  | nil => exact (cells key there found).1
  | cons name rest =>
    rw [column?_cons, Option.bind_eq_some_iff] at found
    obtain ⟨inner, reached, later⟩ := found
    obtain ⟨here, held, inside⟩ := Option.bind_eq_some_iff.mp reached
    exact (cells name here held).2 inner inside rest key there later

end Everywhere

/-- Entities have the same columns when those at the end of every path are for the same. -/
def SameColumns (view : View) (first second : Object) : Prop :=
  ∀ path name, (view.column? first path name).map Cell.slot =
    (view.column? second path name).map Cell.slot

/-- Where one of two entities with the same columns has a column, the other one has one for the
same. -/
theorem SameColumns.exists_cell {first second : Object} (same : view.SameColumns first second)
    (found : view.column? first path name = some cell) :
    ∃ other, view.column? second path name = some other ∧ other.slot = cell.slot := by
  have slots := same path name
  rwa [found, Option.map_some, eq_comm, Option.map_eq_some_iff] at slots

/-- Entities have the same columns when they have the same ones for names and those lead to entities
with the same columns. -/
theorem sameColumns_of_cells {first second : Object}
    (cells : ∀ name, (view.cell? first name).map Cell.slot = (view.cell? second name).map Cell.slot)
    (inner : ∀ name, Option.Rel view.SameColumns
      ((view.cell? first name).bind (view.inner? first))
      ((view.cell? second name).bind (view.inner? second))) :
    view.SameColumns first second := by
  intro path key
  cases path with
  | nil => exact cells key
  | cons name rest =>
    rw [column?_cons, column?_cons]
    have inside := inner name
    revert inside
    cases (view.cell? first name).bind (view.inner? first) <;>
      cases (view.cell? second name).bind (view.inner? second) <;> intro inside <;> cases inside
    · rfl
    · next left right same => exact same rest key

/-- Entities with the same slots have the same columns, whatever the registry makes for them. -/
theorem sameColumns_of_sameSlots {registry : Registry} {first second : Object}
    (same : first.SameSlots second) : (building registry).SameColumns first second := by
  refine sameColumns_of_cells same fun name => ?_
  have inside : ((building registry).cell? first name).bind ((building registry).inner? first) =
      ((building registry).cell? second name).bind ((building registry).inner? second) := by
    simp only [building, ← Option.bind_assoc]
    rw [Cell.bind_declared?_congr (same name)]
  rw [inside]
  cases ((building registry).cell? second name).bind ((building registry).inner? second) with
  | none => exact .none
  | some inner => exact .some fun _ _ => rfl

end View

end TypedRecord
