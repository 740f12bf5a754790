import TypedRecord.Proofs.Blanks
import TypedRecord.Proofs.TypedEntities
import TypedRecord.Proofs.Views

/-!
# Readings

A property is read or not for one of a few reasons, which are listed here once, down to the entities
that are read into. Main statement: whatever is read into an entity, its columns stay for the same
at the end of every path, and so does the blank entity of its type, which is where an absent entity
that may hold another one of its type starts from.
-/
namespace TypedRecord

open Entries

/-- Induction over a mapping, with the claim for every map that is present in it. -/
@[elab_as_elim] theorem Mapping.induction {motive : Mapping → Prop}
    (step : ∀ data : Mapping, (∀ key entries, data.present? key = some (.map entries) →
      motive entries) → motive data) (data : Mapping) : motive data :=
  step data fun _ entries _ => Mapping.induction step entries
termination_by sizeOf data
decreasing_by
  next present =>
    have smaller := sizeOf_snd_lt (mem_of_find? (data.find?_of_present? present))
    rw [Value.map.sizeOf_spec] at smaller
    omega

namespace Object

variable {object next : Object} {name : String} {data : Mapping} {value : Value} {error : Error}

/-! ### Why a property is read, or not -/

/-- What a complete reading of a property leaves, and why. -/
inductive Reads (object : Object) (name : String) (data : Mapping) : Object → Prop where
  /-- Nothing is read, for want of a value or of a column. -/
  | unread : Reads object name data object
  /-- A value is loaded into plain content. -/
  | loaded {value : Value} {content loaded : Content} (present : data.present? name = some value)
    (held : object.cell? .wire name = some (.plain content))
    (loading : content.load name value = .ok loaded) :
    Reads object name data (object.setCell .wire name (.plain loaded))
  /-- A map is read into the entity of a column. -/
  | nested {entries : Mapping} {cell : Cell} {declared : Declared} {nested inner : Object}
    (present : data.present? name = some (.map entries))
    (held : object.cell? .wire name = some cell)
    (inside : object.nested? cell = some (declared, nested))
    (reading : nested.read entries = .complete inner) :
    Reads object name data (object.setCell .wire name (.entity declared inner))

/-- What stops the reading of a property, and why. -/
inductive ReadStops (object : Object) (name : String) (data : Mapping) : Error → Prop where
  /-- Plain content does not take the value. -/
  | content {value : Value} {content : Content} {error : Error}
    (present : data.present? name = some value)
    (held : object.cell? .wire name = some (.plain content))
    (failed : content.load name value = .error error) : ReadStops object name data error
  /-- The value for an entity is no map. -/
  | unmapped {value : Value} {cell : Cell} {declared : Declared}
    (present : data.present? name = some value) (held : object.cell? .wire name = some cell)
    (holds : cell.declared? = some declared) (unmapped : value.asMap? = none) :
    ReadStops object name data (.mismatch (.property name) "map" value.typeName)
  /-- A map is not read into the entity of a column. -/
  | nested {entries : Mapping} {cell : Cell} {declared : Declared} {nested : Object} {error : Error}
    (present : data.present? name = some (.map entries))
    (held : object.cell? .wire name = some cell)
    (inside : object.nested? cell = some (declared, nested))
    (stopped : (nested.read entries).stopped = some error) :
    ReadStops object name data (error.within name)

/-- A property is read when the mapping has a value for it. -/
theorem readEntry_of_present? (name : String) (object : Object) (data : Mapping) :
    readEntry name object data = match data.present? name with
      | some value => readValue name object value
      | none => .complete object := by
  rw [readEntry_eq, Mapping.present?]
  cases find? data name with
  | none => rfl
  | some value =>
    cases value with
    | null => simp only [readValue]
    | _ => rfl

/-- A value that is no map is not read into an entity. -/
theorem readValue_of_declared? {cell : Cell} {declared : Declared}
    (held : object.cell? .wire name = some cell) (holds : cell.declared? = some declared)
    (unmapped : value.asMap? = none) (present : value.isNull = false) :
    readValue name object value =
      .stop object (.mismatch (.property name) "map" value.typeName) := by
  cases cell with
  | plain content => cases holds
  | entity _ _ | vacant _ =>
    cases value with
    | null => cases present
    | map entries => cases unmapped
    | _ => simp only [readValue, held]

/-- A map is not read where there is no entity to read it into. -/
theorem readValue_of_nested?_eq_none {cell : Cell} {declared : Declared} {entries : Mapping}
    (held : object.cell? .wire name = some cell) (holds : cell.declared? = some declared)
    (outside : object.nested? cell = none) :
    readValue name object (.map entries) = .complete object := by
  cases cell with
  | plain content => cases holds
  | entity _ _ | vacant _ => simp only [readValue, held, outside]

/-- A property is left as it is, loaded into plain content, refused by a column for an entity or
read into one. -/
theorem readEntry_cases (name : String) (object : Object) (data : Mapping) :
    readEntry name object data = .complete object ∨
      (∃ value content, data.present? name = some value ∧
        object.cell? .wire name = some (.plain content) ∧
        readEntry name object data = object.load name content value) ∨
      (∃ value cell declared, data.present? name = some value ∧
        object.cell? .wire name = some cell ∧ cell.declared? = some declared ∧
        value.asMap? = none ∧ readEntry name object data =
          .stop object (.mismatch (.property name) "map" value.typeName)) ∨
      ∃ entries cell declared nested, data.present? name = some (.map entries) ∧
        object.cell? .wire name = some cell ∧ object.nested? cell = some (declared, nested) ∧
        readEntry name object data = ((nested.read entries).within name).map fun inner =>
          object.setCell .wire name (.entity declared inner) := by
  rw [readEntry_of_present?]
  cases present : data.present? name with
  | none => exact .inl rfl
  | some value =>
    have notNull := data.isNull_of_present? present
    cases held : object.cell? .wire name with
    | none => exact .inl (readValue_of_eq_none held value)
    | some cell =>
      cases holds : cell.declared? with
      | none =>
        cases cell with
        | plain content =>
          exact .inr (.inl ⟨value, content, rfl, rfl, readValue_plain held notNull⟩)
        | entity _ _ | vacant _ => cases holds
      | some declared =>
        cases mapped : value.asMap? with
        | none =>
          exact .inr (.inr (.inl ⟨value, cell, declared, rfl, rfl, holds, mapped,
            readValue_of_declared? held holds mapped notNull⟩))
        | some entries =>
          obtain rfl : value = .map entries := by
            cases value <;> cases mapped
            rfl
          cases inside : object.nested? cell with
          | none => exact .inl (readValue_of_nested?_eq_none held holds inside)
          | some found =>
            exact .inr (.inr (.inr ⟨entries, cell, found.1, found.2, rfl, rfl, inside,
              readValue_nested held inside entries⟩))

/-- A property is read for one of the reasons. -/
theorem reads_of_complete (done : readEntry name object data = .complete next) :
    object.Reads name data next := by
  obtain same | ⟨value, content, present, held, same⟩ | ⟨_, _, _, _, _, _, _, same⟩ |
    ⟨entries, cell, declared, nested, present, held, inside, same⟩ :=
      readEntry_cases name object data
  all_goals rw [same] at done
  · cases done
    exact .unread
  · rw [load, Progress.ofStep_eq_complete, exceptMap_eq_ok] at done
    obtain ⟨loaded, loading, rfl⟩ := done
    exact .loaded present held loading
  · cases done
  · rw [Progress.map_eq_complete] at done
    obtain ⟨inner, reading, rfl⟩ := done
    exact .nested present held inside (Progress.within_eq_complete.mp reading)

/-- A property that is not read is so for one of the reasons. -/
theorem readStops_of_stopped (stopped : (readEntry name object data).stopped = some error) :
    object.ReadStops name data error := by
  obtain same | ⟨value, content, present, held, same⟩ |
    ⟨value, cell, declared, present, held, holds, unmapped, same⟩ |
    ⟨entries, cell, declared, nested, present, held, inside, same⟩ :=
      readEntry_cases name object data
  all_goals rw [same] at stopped
  · cases stopped
  · rw [load, Progress.stopped_ofStep, exceptMap_eq_error] at stopped
    exact .content present held stopped
  · cases stopped
    exact .unmapped present held holds unmapped
  · obtain ⟨failure, failed, rfl⟩ := Option.map_eq_some_iff.mp stopped
    exact .nested present held inside failed

/-! ### Reading keeps the columns -/

/-- An entity is filled when a column that can hold one is vacant only where it is held optionally,
in it and in the entities that are read into. -/
def Filled : Object → Prop :=
  View.reading.Everywhere fun _ cell =>
    ∀ declared, cell = .vacant declared → declared.holding = .optional

/-- What reading keeps of an entity: that it is filled, what its columns are for, and the blank
entity of its type. -/
structure Kept (start final : Object) : Prop where
  /-- It is filled. -/
  filled : final.Filled
  /-- Its columns are for the same. -/
  columns : View.reading.SameColumns final start
  /-- It is the same before anything is assigned. -/
  blank : final.reset = start.reset

namespace Kept

variable {start final : Object}

/-- An entity that stays is kept. -/
theorem refl (filled : object.Filled) : Kept object object := ⟨filled, fun _ _ => rfl, rfl⟩

/-- What is kept twice is kept. -/
theorem trans (first : Kept start object) (second : Kept object final) : Kept start final :=
  ⟨second.filled, fun path name => (second.columns path name).trans (first.columns path name),
    second.blank.trans first.blank⟩

/-- An entity that is kept has its type. -/
theorem type_eq (kept : Kept start final) : final.type = start.type := by
  rw [← type_reset final, kept.blank, type_reset]

end Kept

/-- A column that leads to an entity holds that one, or is vacant. -/
theorem eq_of_nested? {cell : Cell} {declared : Declared} {nested : Object}
    (inside : object.nested? cell = some (declared, nested)) :
    cell = .entity declared nested ∨ cell = .vacant declared := by
  cases cell with
  | plain content => cases inside
  | entity _ _ =>
    cases inside
    exact .inl rfl
  | vacant _ =>
    obtain ⟨blank, -, same⟩ := Option.map_eq_some_iff.mp inside
    cases same
    exact .inr rfl

/-- A vacant column leads to a part of the blank entity. -/
theorem inner?_vacant (object : Object) (declared : Declared) :
    View.reading.inner? object (.vacant declared) = object.reset.component? declared.ident := by
  simp only [View.reading, nested?, component?_reset, Option.map_map]
  rfl

/-- The entity that a column leads to is the same in an entity with the same blank. -/
theorem inner?_congr {first second : Object} (blank : first.reset = second.reset) (cell : Cell) :
    View.reading.inner? first cell = View.reading.inner? second cell := by
  cases cell with
  | vacant declared => rw [inner?_vacant, inner?_vacant, blank]
  | _ => rfl

section Replaced

variable {cell changed : Cell}

/-- A property is found in its column after it is replaced, and the other ones where they were. -/
theorem cell?_reading_setCell (named : name ∈ object.type.properties)
    (held : object.cell? .wire name = some cell) (key : String) :
    View.reading.cell? (object.setCell .wire name changed) key =
      if name = key then some changed else View.reading.cell? object key := by
  simp only [View.reading, type_setCell]
  rw [cell?_setCell .wire name key changed object (by rw [held]; rfl)]
  by_cases here : name = key
  · rw [if_pos (here ▸ named), if_pos here, if_pos here]
  · rw [if_neg here, if_neg here]

/-- A column is replaced by one that keeps the entity when it is for the same, has the same blank,
is not vacant, and leads to an entity with the same columns. -/
theorem Kept.setCell (filled : object.Filled) (named : name ∈ object.type.properties)
    (held : object.cell? .wire name = some cell) (slot : changed.slot = cell.slot)
    (blank : changed.reset = cell.reset) (occupied : ∀ declared, changed ≠ .vacant declared)
    (inner : Option.Rel (fun fresh old => fresh.Filled ∧ View.reading.SameColumns fresh old)
      (View.reading.inner? object changed) (View.reading.inner? object cell)) :
    Kept object (object.setCell .wire name changed) := by
  have resets := reset_setCell .wire blank object held
  have found := (View.cell?_reading named).trans held
  have inside : ∀ key,
      Option.Rel (fun fresh old => fresh.Filled ∧ View.reading.SameColumns fresh old)
        ((View.reading.cell? (object.setCell .wire name changed) key).bind
          (View.reading.inner? (object.setCell .wire name changed)))
        ((View.reading.cell? object key).bind (View.reading.inner? object)) := by
    intro key
    -- the blank entity is the same, so every other column leads where it led
    rw [cell?_reading_setCell named held, funext (inner?_congr resets)]
    split
    · next here => rwa [← here, found, Option.bind_some, Option.bind_some]
    · cases other : View.reading.cell? object key with
      | none => exact .none
      | some kept =>
        rw [Option.bind_some]
        cases within : View.reading.inner? object kept with
        | none => exact .none
        | some old => exact .some ⟨filled.below other within, fun _ _ => rfl⟩
  refine ⟨.of_cells fun key there shown => ⟨?_, fun fresh leads => ?_⟩,
    View.sameColumns_of_cells (fun key => ?_) fun key => ?_, resets⟩
  · rw [cell?_reading_setCell named held] at shown
    split at shown
    · cases shown
      exact fun declared vacant => absurd vacant (occupied declared)
    · exact filled.here shown
  · have inner := inside key
    rw [shown, Option.bind_some, leads] at inner
    generalize (View.reading.cell? object key).bind _ = old at inner
    cases inner with
    | some related => exact related.1
  · rw [cell?_reading_setCell named held]
    split
    · next here => rw [← here, found, Option.map_some, Option.map_some, slot]
    · rfl
  · have inner := inside key
    generalize (View.reading.cell? (object.setCell .wire name changed) key).bind _ = fresh,
      (View.reading.cell? object key).bind _ = old at inner ⊢
    cases inner with
    | none => exact .none
    | some related => exact .some related.2

end Replaced

/-- Reading a property completely keeps an entity, when reading the map under its name does. -/
theorem Kept.of_readEntry (filled : object.Filled) (named : name ∈ object.type.properties)
    (within : ∀ (entries : Mapping) (nested final : Object),
      data.present? name = some (.map entries) → nested.Filled →
        nested.read entries = .complete final → Kept nested final)
    (done : readEntry name object data = .complete next) : Kept object next := by
  cases reads_of_complete done with
  | unread => exact .refl filled
  | loaded present held loading =>
    have form := Content.form_of_load loading
    exact .setCell filled named held (congrArg Slot.plain form)
      (congrArg Cell.plain (Content.reset_congr form)) nofun .none
  | @nested entries cell declared nested inner present held inside reading =>
    have found := (View.cell?_reading named).trans held
    have leads : View.reading.inner? object cell = some nested :=
      congrArg (Option.map Prod.snd) inside
    have kept := within entries nested inner present (filled.below found leads) reading
    have related : Option.Rel (fun fresh old => fresh.Filled ∧ View.reading.SameColumns fresh old)
        (some inner) (some nested) := .some ⟨kept.filled, kept.columns⟩
    obtain rfl | rfl := eq_of_nested? inside
    · refine .setCell filled named held rfl ?_ nofun (leads ▸ related)
      rw [Cell.reset, Cell.reset, kept.blank]
    · -- a vacant column is one where an entity is optional, so it is vacant again when it is reset
      refine .setCell filled named held rfl ?_ nofun (leads ▸ related)
      rw [Cell.reset, if_pos (filled.here found declared rfl), Cell.reset]

/-- An entity stays kept when one more property is read. -/
theorem Kept.step {start : Object} (kept : Kept start object)
    (named : name ∈ start.type.properties)
    (within : ∀ (entries : Mapping) (nested final : Object),
      data.present? name = some (.map entries) → nested.Filled →
        nested.read entries = .complete final → Kept nested final)
    (done : readEntry name object data = .complete next) : Kept start next :=
  kept.trans (.of_readEntry kept.filled (kept.type_eq ▸ named) within done)

/-- Reading keeps an entity. -/
theorem Kept.of_read {final : Object} (filled : object.Filled)
    (done : object.read data = .complete final) : Kept object final := by
  induction data using Mapping.induction generalizing object final with
  | step data ih =>
    refine (Progress.holds_of_complete (Kept object) ?_ (.refl filled) done).1
    intro key member state next kept stepped
    refine kept.step member ?_ stepped
    intro entries nested final present filledToo doneToo
    exact ih key entries present filledToo doneToo

/-- Reading that stops does so at a property, and the entity is kept until there. -/
theorem property_of_stopped (filled : object.Filled)
    (stopped : (object.read data).stopped = some error) :
    ∃ name ∈ object.type.properties, ∃ reached, Kept object reached ∧
      reached.ReadStops name data error := by
  obtain ⟨name, member, reached, kept, failed⟩ := Progress.exists_stopped_of_holds (Kept object)
    (fun name member state next kept stepped =>
      kept.step member (fun _ _ _ _ filledToo done => .of_read filledToo done) stepped)
    (.refl filled) stopped
  exact ⟨name, member, reached, kept, readStops_of_stopped failed⟩

end Object

end TypedRecord
