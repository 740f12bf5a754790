import TypedRecord.Entity.Record
import TypedRecord.Proofs.Columns
import TypedRecord.Proofs.Kinds
import TypedRecord.Proofs.Progress

/-!
# Shapes of entities

A shape lists the properties that travel with what each of them holds: plain content of a form, or
an entity of another shape. An entity fits a shape when its type names the properties and its
columns hold what the shape says, wherever among its own, its mixed in and its hidden columns they
stand.
-/
namespace TypedRecord

/-- What a property holds. -/
inductive WireShape where
  /-- Plain content of a form. -/
  | plain (form : Form)
  /-- An entity, by its properties in their order. -/
  | object (fields : List (String × WireShape))

namespace WireShape

mutual

/-- Whether the contents travel and the properties of every entity are distinct. -/
def WellFormed : WireShape → Prop
  | .plain form => form.travels = true
  | .object fields => (fields.map Prod.fst).Nodup ∧ WellFormedFields fields

/-- Whether the shapes of properties are well-formed. -/
def WellFormedFields : List (String × WireShape) → Prop
  | [] => True
  | (_, shape) :: rest => shape.WellFormed ∧ WellFormedFields rest

end

mutual

/-- Whether a column holds what a shape says. -/
def Fits : WireShape → Cell → Prop
  | .plain form, .plain content => content.form = form
  | .object fields, .entity _ nested =>
    nested.type.properties = fields.map Prod.fst ∧ FitsFields fields nested
  | _, _ => False

/-- Whether the columns of an entity hold what the shapes of properties say. -/
def FitsFields : List (String × WireShape) → Object → Prop
  | [], _ => True
  | (name, shape) :: rest, entity =>
    (∃ cell, entity.cell? .wire name = some cell ∧ shape.Fits cell) ∧ FitsFields rest entity

end

mutual

/-- Whether a column is another one after it went through a format: plain content is its normal
form, an entity is equal in every property. -/
def Restores (format : WireFormat) : WireShape → Cell → Cell → Prop
  | .plain _, .plain source, .plain result => result = source.normal format
  | .object fields, .entity _ source, .entity _ result => RestoresFields format fields source result
  | _, _, _ => False

/-- Whether an entity is another one in every property, after it went through a format. -/
def RestoresFields (format : WireFormat) : List (String × WireShape) → Object → Object → Prop
  | [], _, _ => True
  | (name, shape) :: rest, source, result =>
    (∃ sent received, source.cell? .wire name = some sent ∧
      result.cell? .wire name = some received ∧ shape.Restores format sent received) ∧
    RestoresFields format rest source result

end

/-- Shapes of properties that are well-formed one by one. -/
theorem wellFormedFields_iff {fields : List (String × WireShape)} :
    WellFormedFields fields ↔ ∀ field ∈ fields, field.2.WellFormed := by
  induction fields with
  | nil => simp [WellFormedFields]
  | cons field rest ih => simp [WellFormedFields, ih]

/-- Columns that fit one by one. -/
theorem fitsFields_iff {fields : List (String × WireShape)} {entity : Object} :
    FitsFields fields entity ↔ ∀ field ∈ fields,
      ∃ cell, entity.cell? .wire field.1 = some cell ∧ field.2.Fits cell := by
  induction fields with
  | nil => simp [FitsFields]
  | cons field rest ih => simp [FitsFields, ih]

/-- Properties that are equal one by one. -/
theorem restoresFields_iff {format : WireFormat} {fields : List (String × WireShape)}
    {source result : Object} :
    RestoresFields format fields source result ↔ ∀ field ∈ fields, ∃ sent received,
      source.cell? .wire field.1 = some sent ∧ result.cell? .wire field.1 = some received ∧
        field.2.Restores format sent received := by
  induction fields with
  | nil => simp [RestoresFields]
  | cons field rest ih => simp [RestoresFields, ih]

/-- The shape of a property is smaller than that of its entity. -/
theorem sizeOf_field_lt {fields : List (String × WireShape)} {field : String × WireShape}
    (member : field ∈ fields) : sizeOf field.2 < sizeOf (WireShape.object fields) := by
  have smaller := Entries.sizeOf_snd_lt member
  rw [WireShape.object.sizeOf_spec]
  omega

/-- Induction over a shape, with the claim for every property of an entity. -/
@[elab_as_elim] theorem induction {motive : WireShape → Prop}
    (plain : ∀ form, motive (.plain form))
    (object : ∀ fields : List (String × WireShape),
      (∀ field ∈ fields, motive field.2) → motive (.object fields))
    (shape : WireShape) : motive shape :=
  match shape with
  | .plain form => plain form
  | .object fields => object fields fun field _ => induction plain object field.2
termination_by sizeOf shape
decreasing_by
  next member => exact sizeOf_field_lt member

end WireShape

end TypedRecord
