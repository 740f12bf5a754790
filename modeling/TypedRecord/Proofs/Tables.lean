import TypedRecord.Proofs.Columns

/-!
# Tables of names

The names of an entity are those under which a column is found, and its hidden columns are the ones
that no name of the table reaches. Replacing columns leaves both alone. On the wire hidden columns
are looked up as well; a name is tabled when that makes no difference to it, because its first
column on the wire is one of the table.
-/
namespace TypedRecord

open Entries

namespace Entries

variable {α : Type}

/-- A key is one of the keys of a map when something is found under it. -/
theorem mem_keys_iff {entries : Entries α} {key : String} :
    key ∈ keys entries ↔ (find? entries key).isSome := by
  rw [Option.isSome_iff_ne_none, ne_eq, find?_eq_none_iff]
  push Not
  simp [keys]

/-- A replacement finds something under the same keys. -/
theorem isSome_find?_replace (entries : Entries α) (key other : String) (value : α) :
    (find? (replace entries key value) other).isSome = (find? entries other).isSome := by
  rw [Bool.eq_iff_iff, ← mem_keys_iff, ← mem_keys_iff, keys_replace]

end Entries

namespace Object

mutual

/-- The hidden columns of an entity and of the entities mixed into it. -/
def skipped : Object → List (String × Cell)
  | mk _ _ mixins hidden => hidden ++ mixedSkipped mixins

/-- The hidden columns of mixed in entities. -/
def mixedSkipped : List Object → List (String × Cell)
  | [] => []
  | object :: rest => object.skipped ++ mixedSkipped rest

end

/-! ### Names -/

mutual

/-- The names of an entity are those under which a column is found. -/
theorem mem_names_iff (name : String) :
    ∀ object : Object, name ∈ object.names ↔ (object.cell? .table name).isSome
  | mk type columns mixins hidden => by
    rw [names, cell?, List.mem_append, mem_keys_iff, mem_mixedNames_iff name mixins]
    simp [Scope.reveal, find?]

/-- The names of mixed in entities are those under which a column is found in them. -/
theorem mem_mixedNames_iff (name : String) :
    ∀ mixins : List Object, name ∈ mixedNames mixins ↔ (mixedCell? .table name mixins).isSome
  | [] => by simp [mixedNames, mixedCell?]
  | object :: rest => by
    rw [mixedNames, mixedCell?, List.mem_append, mem_names_iff name object,
      mem_mixedNames_iff name rest]
    simp

end

mutual

/-- A replaced column leaves the names of an entity. -/
@[simp] theorem names_setCell (scope : Scope) (name : String) (cell : Cell) :
    ∀ object : Object, (object.setCell scope name cell).names = object.names
  | mk type columns mixins hidden => by
    rw [setCell_mk]
    split
    · rw [names, names, keys_replace]
    · split
      · rw [names, names, mixedNames_setMixedCell scope name cell mixins]
      · cases scope <;> rfl

/-- A replaced column leaves the names of mixed in entities. -/
theorem mixedNames_setMixedCell (scope : Scope) (name : String) (cell : Cell) :
    ∀ mixins : List Object, mixedNames (setMixedCell scope name cell mixins) = mixedNames mixins
  | [] => rfl
  | object :: rest => by
    rw [setMixedCell]
    split
    · rw [mixedNames, mixedNames, names_setCell scope name cell object]
    · rw [mixedNames, mixedNames, mixedNames_setMixedCell scope name cell rest]

end

/-! ### Values -/

/-- The values of columns, one by one. -/
theorem columnValues_eq_mapValues (columns : List (String × Cell)) :
    Cell.columnValues columns = mapValues Cell.toValue columns := by
  induction columns with
  | nil => rfl
  | cons column rest ih => simp only [Cell.columnValues, ih, mapValues, List.map_cons]

mutual

/-- The first value of an entity under a name is that of its column. -/
theorem find?_values (name : String) :
    ∀ object : Object, find? object.values name = object.value? name
  | mk type columns mixins hidden => by
    rw [values, find?_append, columnValues_eq_mapValues, find?_mapValues,
      find?_mixedValues name mixins, value?, cell?, Option.map_or, Option.map_or]
    simp [Scope.reveal, find?]

/-- The first value of mixed in entities under a name is that of their column. -/
theorem find?_mixedValues (name : String) :
    ∀ mixins : List Object,
      find? (mixedValues mixins) name = (mixedCell? .table name mixins).map Cell.toValue
  | [] => rfl
  | object :: rest => by
    rw [mixedValues, find?_append, find?_values name object, find?_mixedValues name rest,
      mixedCell?, Option.map_or, value?]

end

/-- The mapping of an entity has the value of every column under its name. -/
theorem find?_toMapping (object : Object) (name : String) :
    find? object.toMapping name = object.value? name := by
  rw [toMapping, find?_ofFirst, find?_values]

/-- The keys of the mapping of an entity are in order. -/
theorem sorted_toMapping (object : Object) : Sorted object.toMapping :=
  sorted_ofFirst object.values

/-- Entities with the same values under every name have the same mapping. -/
theorem toMapping_ext {first second : Object}
    (same : ∀ name, first.value? name = second.value? name) :
    first.toMapping = second.toMapping := by
  refine Sorted.ext first.sorted_toMapping second.sorted_toMapping fun name => ?_
  exact (find?_toMapping first name).trans
    ((same name).trans (find?_toMapping second name).symm)

/-! ### Hidden columns -/

mutual

/-- A replaced column of the table leaves the hidden columns of an entity. -/
theorem skipped_setCell (name : String) (cell : Cell) :
    ∀ object : Object, (object.setCell .table name cell).skipped = object.skipped
  | mk type columns mixins hidden => by
    rw [setCell_mk]
    split
    · rfl
    · split
      · rw [skipped, skipped, mixedSkipped_setMixedCell name cell mixins]
      · rfl

/-- A replaced column of the table leaves the hidden columns of mixed in entities. -/
theorem mixedSkipped_setMixedCell (name : String) (cell : Cell) :
    ∀ mixins : List Object, mixedSkipped (setMixedCell .table name cell mixins) =
      mixedSkipped mixins
  | [] => rfl
  | object :: rest => by
    rw [setMixedCell]
    split
    · rw [mixedSkipped, mixedSkipped, skipped_setCell name cell object]
    · rw [mixedSkipped, mixedSkipped, mixedSkipped_setMixedCell name cell rest]

end

/-! ### Tabled names -/

mutual

/-- Whether the first column of a name on the wire is one of the table of an entity. -/
def isTabled (name : String) : Object → Bool
  | mk _ columns mixins _ => contains columns name || mixedIsTabled name mixins

/-- Whether the first column of a name on the wire is one of the tables of mixed in entities. -/
def mixedIsTabled (name : String) : List Object → Bool
  | [] => false
  | object :: rest =>
    object.isTabled name || (!(object.cell? .wire name).isSome && mixedIsTabled name rest)

end

mutual

/-- A column of the table of an entity is looked up on the wire as well. -/
theorem cell?_table_eq_none (name : String) :
    ∀ object : Object, object.cell? .wire name = none → object.cell? .table name = none
  | mk type columns mixins hidden, absent => by
    rw [cell?, Option.or_eq_none_iff, Option.or_eq_none_iff] at absent
    rw [cell?, absent.1, mixedCell?_table_eq_none name mixins absent.2.1]
    rfl

/-- A column of the tables of mixed in entities is looked up on the wire as well. -/
theorem mixedCell?_table_eq_none (name : String) :
    ∀ mixins : List Object, mixedCell? .wire name mixins = none →
      mixedCell? .table name mixins = none
  | [], _ => rfl
  | object :: rest, absent => by
    rw [mixedCell?, Option.or_eq_none_iff] at absent
    rw [mixedCell?, cell?_table_eq_none name object absent.1,
      mixedCell?_table_eq_none name rest absent.2]
    rfl

end

mutual

/-- A tabled name has the same column on the wire and in the table. -/
theorem cell?_of_isTabled (name : String) :
    ∀ object : Object, object.isTabled name = true →
      object.cell? .wire name = object.cell? .table name ∧ (object.cell? .table name).isSome
  | mk type columns mixins hidden, tabled => by
    cases own : find? columns name with
    | some cell => simp [cell?, own]
    | none =>
      have mixed : mixedIsTabled name mixins = true := by
        simpa [isTabled, contains, own] using tabled
      obtain ⟨same, found⟩ := mixedCell?_of_isTabled name mixins mixed
      obtain ⟨cell, held⟩ := Option.isSome_iff_exists.mp found
      simp [cell?, own, same, held]

/-- A name that is tabled in mixed in entities has the same column in them on the wire and in the
table. -/
theorem mixedCell?_of_isTabled (name : String) :
    ∀ mixins : List Object, mixedIsTabled name mixins = true →
      mixedCell? .wire name mixins = mixedCell? .table name mixins ∧
        (mixedCell? .table name mixins).isSome
  | [], tabled => by simp [mixedIsTabled] at tabled
  | object :: rest, tabled => by
    rw [mixedIsTabled, Bool.or_eq_true] at tabled
    rcases tabled with first | later
    · obtain ⟨same, found⟩ := cell?_of_isTabled name object first
      obtain ⟨cell, held⟩ := Option.isSome_iff_exists.mp found
      simp [mixedCell?, same, held]
    · rw [Bool.and_eq_true, Bool.not_eq_true', Option.isSome_eq_false_iff,
        Option.isNone_iff_eq_none] at later
      obtain ⟨absent, tabled⟩ := later
      obtain ⟨same, found⟩ := mixedCell?_of_isTabled name rest tabled
      rw [mixedCell?, mixedCell?, absent, cell?_table_eq_none name object absent, Option.none_or,
        Option.none_or]
      exact ⟨same, found⟩

end

mutual

/-- A replaced column leaves the names under which an entity has a column, on the wire as well. -/
theorem isSome_cell?_setCell (scope view : Scope) (name other : String) (cell : Cell) :
    ∀ object : Object, ((object.setCell scope name cell).cell? view other).isSome =
      (object.cell? view other).isSome
  | mk type columns mixins hidden => by
    rw [setCell_mk]
    split
    · simp [cell?, isSome_find?_replace]
    · split
      · simp [cell?, isSome_mixedCell?_setMixedCell scope view name other cell mixins]
      · cases scope with
        | table => rfl
        | wire => cases view <;> simp [cell?, Scope.reveal, isSome_find?_replace]

/-- A replaced column leaves the names under which mixed in entities have a column. -/
theorem isSome_mixedCell?_setMixedCell (scope view : Scope) (name other : String) (cell : Cell) :
    ∀ mixins : List Object, (mixedCell? view other (setMixedCell scope name cell mixins)).isSome =
      (mixedCell? view other mixins).isSome
  | [] => rfl
  | object :: rest => by
    rw [setMixedCell]
    split
    · simp [mixedCell?, isSome_cell?_setCell scope view name other cell object]
    · simp [mixedCell?, isSome_mixedCell?_setMixedCell scope view name other cell rest]

end

mutual

/-- A replaced column leaves the tabled names of an entity. -/
theorem isTabled_setCell (scope : Scope) (name other : String) (cell : Cell) :
    ∀ object : Object, (object.setCell scope name cell).isTabled other = object.isTabled other
  | mk type columns mixins hidden => by
    rw [setCell_mk]
    split
    · rw [isTabled, isTabled, contains, contains, isSome_find?_replace]
    · split
      · rw [isTabled, isTabled, mixedIsTabled_setMixedCell scope name other cell mixins]
      · cases scope <;> rfl

/-- A replaced column leaves the tabled names of mixed in entities. -/
theorem mixedIsTabled_setMixedCell (scope : Scope) (name other : String) (cell : Cell) :
    ∀ mixins : List Object, mixedIsTabled other (setMixedCell scope name cell mixins) =
      mixedIsTabled other mixins
  | [] => rfl
  | object :: rest => by
    rw [setMixedCell]
    split
    · rw [mixedIsTabled, mixedIsTabled, isTabled_setCell scope name other cell object,
        isSome_cell?_setCell scope .wire name other cell object]
    · rw [mixedIsTabled, mixedIsTabled, mixedIsTabled_setMixedCell scope name other cell rest]

end

end Object

end TypedRecord
