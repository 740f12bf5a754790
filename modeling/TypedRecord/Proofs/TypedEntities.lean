import TypedRecord.Entity.Record
import TypedRecord.Proofs.Coercions
import TypedRecord.Proofs.Columns

/-!
# Entities without untyped content

An entity is typed when none of its properties keeps values or mappings as they stand, and neither
does a property of an entity inside. Columns that do not travel may hold anything. An entity stays
typed when a column is replaced by a typed one and when it is put back to what it is before anything
is assigned, and a nested entity that is read into is typed wherever it comes from.
-/
namespace TypedRecord

mutual

/-- Whether the columns of some names are typed, those of the properties of mixed in entities
included. -/
def Object.TypedAt : Object → List String → Prop
  | .mk _ columns mixins hidden, names =>
    Cell.TypedColumns columns names ∧ Object.TypedMixins mixins names ∧
      Cell.TypedColumns hidden names

/-- Whether those of some columns that have one of the names are typed. -/
def Cell.TypedColumns : List (String × Cell) → List String → Prop
  | [], _ => True
  | (name, cell) :: rest, names => (name ∈ names → cell.Typed) ∧ Cell.TypedColumns rest names

/-- Whether a column is typed: its content is of a typed kind, or the properties of its entity are
typed. -/
def Cell.Typed : Cell → Prop
  | .plain content => content.form.isTyped = true
  | .entity _ object => object.TypedAt object.type.properties
  | .vacant _ => True

/-- Whether mixed in entities are typed under some names and in their own properties. -/
def Object.TypedMixins : List Object → List String → Prop
  | [], _ => True
  | object :: rest, names =>
    object.TypedAt (names ++ object.type.properties) ∧ Object.TypedMixins rest names

end

/-- An entity is typed when its properties are: none of them, nor of the entities inside, keeps
values or mappings as they stand. -/
def Object.Typed (object : Object) : Prop := object.TypedAt object.type.properties

/-- Columns that are typed one by one. -/
theorem Cell.typedColumns_iff {columns : List (String × Cell)} {names : List String} :
    Cell.TypedColumns columns names ↔
      ∀ column ∈ columns, column.1 ∈ names → column.2.Typed := by
  induction columns with
  | nil => simp [TypedColumns]
  | cons column rest ih => simp [TypedColumns, ih]

/-- A replaced column that is typed leaves columns typed. -/
theorem Cell.typedColumns_replace {columns : List (String × Cell)} {names : List String}
    (typed : Cell.TypedColumns columns names) (name : String) {cell : Cell}
    (replacing : cell.Typed) : Cell.TypedColumns (Entries.replace columns name cell) names := by
  rw [typedColumns_iff] at typed ⊢
  intro column member named
  rcases Entries.mem_replace member with rfl | held
  · exact replacing
  · exact typed column held named

namespace Object

mutual

/-- An entity that is typed under names is typed under fewer. -/
theorem typedAt_mono {few many : List String} (among : ∀ name ∈ few, name ∈ many) :
    ∀ object : Object, object.TypedAt many → object.TypedAt few
  | .mk type columns mixins hidden, ⟨own, mixed, apart⟩ => by
    rw [Cell.typedColumns_iff] at own apart
    refine ⟨Cell.typedColumns_iff.mpr ?_, typedMixins_mono among mixins mixed,
      Cell.typedColumns_iff.mpr ?_⟩
    · exact fun column member named => own column member (among column.1 named)
    · exact fun column member named => apart column member (among column.1 named)

/-- Mixed in entities that are typed under names are typed under fewer. -/
theorem typedMixins_mono {few many : List String} (among : ∀ name ∈ few, name ∈ many) :
    ∀ mixins : List Object, TypedMixins mixins many → TypedMixins mixins few
  | [], _ => trivial
  | object :: rest, ⟨first, others⟩ => by
    refine ⟨typedAt_mono ?_ object first, typedMixins_mono among rest others⟩
    intro name member
    rw [List.mem_append] at member ⊢
    exact member.imp_left (among name)

end

mutual

/-- A column of one of the names is typed. -/
theorem typed_of_cell? {names : List String} {name : String} (named : name ∈ names) {cell : Cell} :
    ∀ object : Object, object.TypedAt names → object.cell? .wire name = some cell → cell.Typed
  | .mk type columns mixins hidden, ⟨own, mixed, apart⟩, held => by
    rw [cell?, Option.or_eq_some_iff, Option.or_eq_some_iff] at held
    rw [Cell.typedColumns_iff] at own apart
    rcases held with found | ⟨-, found | ⟨-, found⟩⟩
    · exact own _ (Entries.mem_of_find? found) named
    · exact typed_of_mixedCell? named mixins mixed found
    · exact apart _ (Entries.mem_of_find? found) named

/-- A mixed in column of one of the names is typed. -/
theorem typed_of_mixedCell? {names : List String} {name : String} (named : name ∈ names)
    {cell : Cell} : ∀ mixins : List Object, TypedMixins mixins names →
      mixedCell? .wire name mixins = some cell → cell.Typed
  | [], _, held => by simp [mixedCell?] at held
  | object :: rest, ⟨first, others⟩, held => by
    rw [mixedCell?, Option.or_eq_some_iff] at held
    rcases held with found | ⟨-, found⟩
    · exact typed_of_cell? (List.mem_append_left _ named) object first found
    · exact typed_of_mixedCell? named rest others found

end

mutual

/-- A replaced column that is typed leaves an entity typed. -/
theorem typedAt_setCell (name : String) {cell : Cell} (replacing : cell.Typed) :
    ∀ (object : Object) (names : List String), object.TypedAt names →
      (object.setCell .wire name cell).TypedAt names
  | .mk type columns mixins hidden, names, ⟨own, mixed, apart⟩ => by
    rw [setCell]
    split
    · exact ⟨Cell.typedColumns_replace own name replacing, mixed, apart⟩
    · split
      · exact ⟨own, typedMixins_setMixedCell name replacing mixins names mixed, apart⟩
      · exact ⟨own, mixed, Cell.typedColumns_replace apart name replacing⟩

/-- A replaced column that is typed leaves mixed in entities typed. -/
theorem typedMixins_setMixedCell (name : String) {cell : Cell} (replacing : cell.Typed) :
    ∀ (mixins : List Object) (names : List String), TypedMixins mixins names →
      TypedMixins (setMixedCell .wire name cell mixins) names
  | [], _, _ => trivial
  | object :: rest, names, ⟨first, others⟩ => by
    rw [setMixedCell]
    split
    · refine ⟨?_, others⟩
      rw [type_setCell]
      exact typedAt_setCell name replacing object _ first
    · exact ⟨first, typedMixins_setMixedCell name replacing rest names others⟩

end

/-- An entity stays of its type when it is as before anything is assigned. -/
@[simp] theorem type_reset (object : Object) : object.reset.type = object.type := by
  cases object
  rfl

mutual

/-- An entity that is typed is typed before anything is assigned. -/
theorem typedAt_reset : ∀ (object : Object) (names : List String), object.TypedAt names →
    object.reset.TypedAt names
  | .mk _ columns mixins hidden, names, ⟨own, mixed, apart⟩ =>
    ⟨typedColumns_reset columns names own, typedMixins_reset mixins names mixed,
      typedColumns_reset hidden names apart⟩

/-- Columns that are typed are typed before anything is assigned. -/
theorem typedColumns_reset : ∀ (columns : List (String × Cell)) (names : List String),
    Cell.TypedColumns columns names → Cell.TypedColumns (Cell.resetColumns columns) names
  | [], _, _ => trivial
  | (_, cell) :: rest, names, ⟨first, others⟩ =>
    ⟨fun named => typed_reset cell (first named), typedColumns_reset rest names others⟩

/-- A column that is typed is typed before anything is assigned. -/
theorem typed_reset : ∀ cell : Cell, cell.Typed → cell.reset.Typed
  | .plain content, typed => by cases content <;> exact typed
  | .vacant _, _ => trivial
  | .entity declared object, typed => by
    rw [Cell.reset]
    split
    · trivial
    · rw [Cell.Typed, type_reset]
      exact typedAt_reset object _ typed

/-- Mixed in entities that are typed are typed before anything is assigned. -/
theorem typedMixins_reset : ∀ (mixins : List Object) (names : List String),
    TypedMixins mixins names → TypedMixins (resetMixins mixins) names
  | [], _, _ => trivial
  | object :: rest, names, ⟨first, others⟩ => by
    refine ⟨?_, typedMixins_reset rest names others⟩
    rw [type_reset]
    exact typedAt_reset object _ first

end

mutual

/-- The part of a typed entity that is of a type is typed. -/
theorem typed_of_component? {ident : String} {part : Object} : ∀ (object : Object)
    (names : List String), object.TypedAt (names ++ object.type.properties) →
      object.component? ident = some part → part.Typed
  | .mk _ columns mixins hidden, names, typed, found => by
    rw [component?] at found
    split at found
    · cases found
      exact typedAt_mono (fun name => List.mem_append_right names) _ typed
    · exact typed_of_mixedComponent? mixins _ typed.2.1 found

/-- A part of typed mixed in entities that is of a type is typed. -/
theorem typed_of_mixedComponent? {ident : String} {part : Object} : ∀ (mixins : List Object)
    (names : List String), TypedMixins mixins names →
      mixedComponent? ident mixins = some part → part.Typed
  | [], _, _, found => by simp [mixedComponent?] at found
  | object :: rest, names, ⟨first, others⟩, found => by
    rw [mixedComponent?, Option.or_eq_some_iff] at found
    rcases found with here | ⟨-, later⟩
    · exact typed_of_component? object names first here
    · exact typed_of_mixedComponent? rest names others later

end

/-- The entity that a nested mapping is read into is typed. -/
theorem typed_of_nested? {object nested : Object} {name : String} {cell : Cell}
    {declared : Declared} (typed : object.Typed) (named : name ∈ object.type.properties)
    (held : object.cell? .wire name = some cell)
    (inside : object.nested? cell = some (declared, nested)) : nested.Typed := by
  cases cell with
  | plain content => simp [nested?] at inside
  | entity _ inner =>
    rw [nested?, Option.some.injEq, Prod.mk.injEq] at inside
    rw [← inside.2]
    exact typed_of_cell? named object typed held
  | vacant _ =>
    rw [nested?, Option.map_eq_some_iff] at inside
    obtain ⟨blank, found, same⟩ := inside
    cases same
    have blankTyped : blank.Typed := typed_of_component? object [] typed found
    rw [Typed, type_reset]
    exact typedAt_reset blank _ blankTyped

/-- A replaced column that is typed leaves an entity without untyped content. -/
theorem Typed.setCell {object : Object} (typed : object.Typed) (name : String) {cell : Cell}
    (replacing : cell.Typed) : (object.setCell .wire name cell).Typed := by
  rw [Typed, type_setCell]
  exact typedAt_setCell name replacing object _ typed

end Object

end TypedRecord
