import TypedRecord.Entity.Table
import TypedRecord.Proofs.Entries

/-!
# Laws of columns

Replacing the column of a name is read back under that name and under no other, however deep in the
mixed in entities the column stands. The type of the entity and the names of its columns stay.
-/
namespace TypedRecord.Object

open Entries

/-- The place of a replaced column: among the own columns, else mixed in, else hidden. -/
theorem setCell_mk (scope : Scope) (name : String) (cell : Cell) (type : EntityType)
    (columns hidden : List (String × Cell)) (mixins : List Object) :
    (mk type columns mixins hidden).setCell scope name cell =
      if contains columns name then mk type (replace columns name cell) mixins hidden
      else if (mixedCell? scope name mixins).isSome then
        mk type columns (setMixedCell scope name cell mixins) hidden
      else match scope with
        | .table => mk type columns mixins hidden
        | .wire => mk type columns mixins (replace hidden name cell) := by
  cases scope <;> rw [setCell]

mutual

/-- A replaced column of an entity that has it is read back. -/
theorem cell?_setCell_self (scope : Scope) (name : String) (cell : Cell) :
    ∀ object : Object, (object.cell? scope name).isSome →
      (object.setCell scope name cell).cell? scope name = some cell
  | mk type columns mixins hidden, held => by
    rw [setCell_mk]
    by_cases own : contains columns name
    · rw [if_pos own, cell?, find?_replace_self cell own, Option.some_or]
    · have absent : find? columns name = none := by simpa [contains] using own
      rw [if_neg own]
      by_cases mixed : (mixedCell? scope name mixins).isSome
      · rw [if_pos mixed, cell?, absent, mixedCell?_setMixedCell_self scope name cell mixins mixed,
          Option.none_or, Option.some_or]
      · have notMixed : mixedCell? scope name mixins = none := by simpa using mixed
        rw [if_neg mixed]
        rw [cell?, absent, notMixed, Option.none_or, Option.none_or] at held
        cases scope with
        | table => simp [Scope.reveal, find?] at held
        | wire =>
          simp only [cell?, absent, notMixed, Option.none_or, Scope.reveal]
          exact find?_replace_self cell held

/-- A replaced column of mixed in entities that have it is read back. -/
theorem mixedCell?_setMixedCell_self (scope : Scope) (name : String) (cell : Cell) :
    ∀ mixins : List Object, (mixedCell? scope name mixins).isSome →
      mixedCell? scope name (setMixedCell scope name cell mixins) = some cell
  | [], held => by simp [mixedCell?] at held
  | object :: rest, held => by
    rw [setMixedCell]
    by_cases first : (object.cell? scope name).isSome
    · rw [if_pos first, mixedCell?, cell?_setCell_self scope name cell object first,
        Option.some_or]
    · have absent : object.cell? scope name = none := by simpa using first
      rw [mixedCell?, absent, Option.none_or] at held
      rw [if_neg first, mixedCell?, absent, Option.none_or,
        mixedCell?_setMixedCell_self scope name cell rest held]

end

mutual

/-- A replaced column leaves every other name of an entity as it was. -/
theorem cell?_setCell_of_ne (scope : Scope) {name other : String} (cell : Cell)
    (different : name ≠ other) :
    ∀ object : Object, (object.setCell scope name cell).cell? scope other =
      object.cell? scope other
  | mk type columns mixins hidden => by
    rw [setCell_mk]
    split
    · rw [cell?, cell?, find?_replace_of_ne columns cell different]
    · split
      · rw [cell?, cell?, mixedCell?_setMixedCell_of_ne scope cell different mixins]
      · cases scope with
        | table => rfl
        | wire => simp only [cell?, Scope.reveal, find?_replace_of_ne hidden cell different]

/-- A replaced column leaves every other name of mixed in entities as it was. -/
theorem mixedCell?_setMixedCell_of_ne (scope : Scope) {name other : String} (cell : Cell)
    (different : name ≠ other) :
    ∀ mixins : List Object, mixedCell? scope other (setMixedCell scope name cell mixins) =
      mixedCell? scope other mixins
  | [] => rfl
  | object :: rest => by
    rw [setMixedCell]
    split
    · rw [mixedCell?, mixedCell?, cell?_setCell_of_ne scope cell different object]
    · rw [mixedCell?, mixedCell?, mixedCell?_setMixedCell_of_ne scope cell different rest]

end

/-- A replaced column leaves the type of an entity. -/
@[simp] theorem type_setCell (scope : Scope) (name : String) (cell : Cell) (object : Object) :
    (object.setCell scope name cell).type = object.type := by
  obtain ⟨type, columns, mixins, hidden⟩ := object
  rw [setCell_mk]
  split
  · rfl
  · split
    · rfl
    · cases scope <;> rfl

/-- What is read under a name after the column of a name is replaced. -/
theorem cell?_setCell (scope : Scope) (name other : String) (cell : Cell) (object : Object)
    (held : (object.cell? scope name).isSome) :
    (object.setCell scope name cell).cell? scope other =
      if name = other then some cell else object.cell? scope other := by
  split
  · next same =>
    subst same
    exact cell?_setCell_self scope name cell object held
  · next different => exact cell?_setCell_of_ne scope cell different object

end TypedRecord.Object
