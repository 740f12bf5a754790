import TypedRecord.Declaration.Basic
import TypedRecord.Entity.Table

/-!
# Entities of declared types

A declaration with what each of its fields holds makes an entity: the columns under their property
names, the entities mixed in, and the fields that are left out as hidden columns. The names of the
entity are the property names of the declaration, followed by the names of what is mixed in.
-/
namespace TypedRecord

/-- What a field of a declaration holds. -/
inductive FieldContent where
  /-- A column. -/
  | column (cell : Cell)
  /-- An entity whose columns are mixed in. -/
  | mixin (object : Object)

/-- The parts of an entity that fields make. -/
structure FieldLayout where
  /-- The columns. -/
  columns : List (String × Cell)
  /-- The entities mixed in. -/
  mixins : List Object
  /-- The hidden columns. -/
  hidden : List (String × Cell)

namespace FieldLayout

/-- The parts that fields make, in order. A field that is left out and holds a column hides it. -/
def ofFields : List (FieldDeclaration × FieldContent) → FieldLayout
  | [] => ⟨[], [], []⟩
  | (field, content) :: rest =>
    let layout := ofFields rest
    match content with
    | .column cell =>
      if field.skip then { layout with hidden := (field.property, cell) :: layout.hidden }
      else { layout with columns := (field.property, cell) :: layout.columns }
    | .mixin object =>
      if field.skip then layout else { layout with mixins := object :: layout.mixins }

end FieldLayout

/-- Whether the fields that are mixed in, and no others, hold entities to mix in. -/
def FieldContent.fits : FieldContent → FieldDeclaration → Bool
  | .column _, field => field.skip || !field.flatten
  | .mixin _, field => field.skip || field.flatten

/-- The entity of an accepted declaration, by its type and by what the fields hold. -/
def TypeDeclaration.assemble (declaration : TypeDeclaration) (type : EntityType)
    (contents : List FieldContent) : Except DeclarationError Object :=
  declaration.table.map fun _ =>
    let layout := FieldLayout.ofFields (declaration.fields.zip contents)
    .mk type layout.columns layout.mixins layout.hidden

/-- The columns that the fields of an accepted declaration make stand under its property names. -/
theorem FieldLayout.keys_columns_ofFields {seen : List String}
    {fields : List (FieldDeclaration × FieldContent)} {table : FieldTable}
    (accepted : FieldTable.ofFields seen (fields.map Prod.fst) = .ok table)
    (fits : ∀ pair ∈ fields, pair.2.fits pair.1) :
    Entries.keys (FieldLayout.ofFields fields).columns = table.own := by
  induction fields generalizing seen table with
  | nil =>
    cases accepted
    rfl
  | cons pair rest ih =>
    obtain ⟨field, content⟩ := pair
    have restFits : ∀ pair ∈ rest, pair.2.fits pair.1 :=
      fun pair member => fits pair (List.mem_cons_of_mem _ member)
    have fit := fits (field, content) List.mem_cons_self
    simp only [List.map_cons, FieldTable.ofFields] at accepted
    by_cases skipped : field.skip
    · simp only [skipped, if_true] at accepted
      cases content <;> simpa [ofFields, skipped] using ih accepted restFits
    · cases content with
      | column cell =>
        have plain : field.flatten = false := by simpa [FieldContent.fits, skipped] using fit
        simp only [skipped, plain, Bool.false_eq_true, if_false] at accepted
        split at accepted
        · simp at accepted
        · cases read : FieldTable.ofFields (field.property :: seen) (rest.map Prod.fst) with
          | error cause => simp [read, Except.map] at accepted
          | ok inner =>
            simp only [read, Except.map, Except.ok.injEq] at accepted
            subst accepted
            simpa [ofFields, skipped, Entries.keys] using ih read restFits
      | mixin object =>
        have mixed : field.flatten = true := by simpa [FieldContent.fits, skipped] using fit
        simp only [skipped, mixed, Bool.false_eq_true, if_false, if_true] at accepted
        split at accepted
        · simp at accepted
        · cases read : FieldTable.ofFields seen (rest.map Prod.fst) with
          | error cause => simp [read, Except.map] at accepted
          | ok inner =>
            simp only [read, Except.map, Except.ok.injEq] at accepted
            subst accepted
            simpa [ofFields, skipped] using ih read restFits

end TypedRecord
