import TypedRecord.Proofs.Agreement
import TypedRecord.Proofs.Coercions

/-!
# Restoring an entity from its values

The mapping of an entity has the value of every column, and assigning a value to a column makes the
column stand for that value again, whatever of its make stood there. Null is the one value that is
not assigned. Main statement: hydrating an entity from the mapping of another one of its type
succeeds and leaves it with the same mapping, where it has null in every column in which the other
one has null, and so have the new entities that the registry makes for the nested ones.
-/
namespace TypedRecord

open Entries

/-! ### Content -/

namespace Kind

/-- The value of data of a kind is read as data with the same value. It may be other data: none
where there is some whose value is null. -/
theorem exists_ofValue?_toValue (kind : Kind) (data : kind.Carrier) :
    ∃ back, kind.ofValue? (kind.toValue data) = some back ∧
      kind.toValue back = kind.toValue data := by
  induction kind with
  | bool | int64 | uint64 | double | text | timestamp | bytes | map | any => exact ⟨data, rfl, rfl⟩
  | int32 => exact ⟨data, toInt32?_int data, rfl⟩
  | uint32 =>
    have bound : UInt32.toNat data < 2 ^ 32 := UInt32.toNat_lt data
    have same : (UInt64.ofNat (UInt32.toNat data)).toNat = UInt32.toNat data :=
      UInt64.toNat_ofNat_of_lt' (by rw [UInt64.size]; omega)
    refine ⟨data, ?_, rfl⟩
    rw [ofValue?, toValue, Value.toUInt32?, Value.toUInt64?, Option.bind_some, same, uint32?_toNat]
  | single => exact ⟨data, toSingle?_float data, rfl⟩
  | texts =>
    have items : ∀ text : String, (Value.text text).asText? = some text := fun _ => rfl
    exact ⟨data, (mapM_map items).trans (congrArg some (List.map_id' data)), rfl⟩
  | maps =>
    have items : ∀ entries : Mapping, (Value.map entries).asMap? = some entries := fun _ => rfl
    exact ⟨data, (mapM_map items).trans (congrArg some (List.map_id' data)), rfl⟩
  | option inner ih =>
    cases data with
    | none => exact ⟨none, rfl, rfl⟩
    | some data =>
      obtain ⟨back, read, same⟩ := ih data
      by_cases null : (inner.toValue data).isNull
      · refine ⟨none, by simp only [ofValue?, toValue, null, if_true], ?_⟩
        simp only [toValue, Value.eq_null_of_isNull null]
      · refine ⟨some back, ?_, same⟩
        simp only [ofValue?, toValue, if_neg null, read]
        rfl

/-- The values of items are loaded as items with the same values. -/
theorem exists_loadItems_toValue (kind : Kind) (name : String) (position : Nat)
    (items : List kind.Carrier) :
    ∃ back, kind.loadItems name position (items.map kind.toValue) = .ok back ∧
      back.map kind.toValue = items.map kind.toValue := by
  induction items generalizing position with
  | nil => exact ⟨[], rfl, rfl⟩
  | cons item rest ih =>
    obtain ⟨first, read, same⟩ := kind.exists_ofValue?_toValue item
    obtain ⟨others, loaded, alike⟩ := ih (position + 1)
    exact ⟨first :: others, loadItems_cons_eq_ok.mpr ⟨first, others, read, loaded, rfl⟩,
      by rw [List.map_cons, List.map_cons, same, alike]⟩

/-- The values of entries are loaded as entries with the same values. -/
theorem exists_loadEntries_toValue (kind : Kind) (name : String) (entries : Entries kind.Carrier) :
    ∃ back, kind.loadEntries name (mapValues kind.toValue entries) = .ok back ∧
      mapValues kind.toValue back = mapValues kind.toValue entries := by
  induction entries with
  | nil => exact ⟨[], rfl, rfl⟩
  | cons entry rest ih =>
    obtain ⟨key, data⟩ := entry
    obtain ⟨first, read, same⟩ := kind.exists_ofValue?_toValue data
    obtain ⟨others, loaded, alike⟩ := ih
    refine ⟨(key, first) :: others, ?_, ?_⟩
    · exact loadEntries_cons_eq_ok.mpr ⟨first, others, read, loaded, rfl⟩
    · simp only [mapValues] at alike
      simp only [mapValues, List.map_cons, same, alike]

end Kind

/-- The value of content is loaded into any content of its form and stands for what is there
then. -/
theorem Content.exists_load_toValue {content current : Content} (form : current.form = content.form)
    (name : String) :
    ∃ loaded, current.load name content.toValue = .ok loaded ∧
      loaded.toValue = content.toValue := by
  rw [load_congr form]
  cases content with
  | scalar kind data =>
    obtain ⟨back, read, same⟩ := kind.exists_ofValue?_toValue data
    exact ⟨_, load_scalar_eq_ok.mpr ⟨back, read, rfl⟩, same⟩
  | array kind items =>
    obtain ⟨back, read, same⟩ := kind.exists_loadItems_toValue name 0 items
    exact ⟨_, load_array_eq_ok.mpr ⟨_, back, rfl, read, rfl⟩, congrArg Value.list same⟩
  | table kind entries =>
    obtain ⟨back, read, same⟩ := kind.exists_loadEntries_toValue name entries
    exact ⟨_, load_table_eq_ok.mpr ⟨_, back, rfl, read, rfl⟩, congrArg Value.map same⟩

/-! ### Entities of one make -/

/-- What a column can hold, which assigning never changes. -/
inductive Slot where
  /-- Plain content of a form. -/
  | plain (form : Form)
  /-- An entity of a declared type, or none where there may be none. -/
  | entity (declared : Declared)

/-- What a column can hold. -/
def Cell.slot : Cell → Slot
  | .plain content => .plain content.form
  | .entity declared _ | .vacant declared => .entity declared

namespace Object

/-- An entity is open to another one of its type when its columns can hold what those of the other
one hold, and it has null wherever the other one has null. -/
structure OpenTo (target source : Object) : Prop where
  /-- The type is the same. -/
  type_eq : target.type = source.type
  /-- So is what can be held under every name. -/
  slots : ∀ name,
    (target.cell? .table name).map Cell.slot = (source.cell? .table name).map Cell.slot
  /-- Where the other one has null, so has this one. -/
  nulls : ∀ name, source.value? name = some .null → target.value? name = some .null

/-- The entities in the columns of an entity go no more than some levels deep. -/
def NestsWithin : Nat → Object → Prop
  | 0, object => ∀ name declared inner, object.cell? .table name ≠ some (.entity declared inner)
  | levels + 1, object => ∀ name declared inner,
    object.cell? .table name = some (.entity declared inner) → NestsWithin levels inner

/-- The registry makes every nested entity: under the name of its type, which is the type declared
with the column, it makes entities that can be assigned and are open to the nested one. -/
inductive Makeable (registry : Registry) : Object → Prop
  /-- The demands are made of the entities in the columns. -/
  | mk {object : Object}
    (declares : ∀ name declared inner, object.cell? .table name = some (.entity declared inner) →
      declared.ident = inner.type.ident ∧ declared.name = inner.type.name)
    (makes : ∀ name declared inner, object.cell? .table name = some (.entity declared inner) →
      ∃ fresh, registry.create inner.type.name = .ok fresh ∧ fresh.type.hydratable = true ∧
        fresh.OpenTo inner)
    (inner : ∀ name declared inner, object.cell? .table name = some (.entity declared inner) →
      Makeable registry inner) : Makeable registry object

namespace OpenTo

variable {target source : Object}

/-- Where the other entity has a column, there is one that can hold the same. -/
theorem exists_cell (opens : target.OpenTo source) {name : String} {sourceCell : Cell}
    (held : source.cell? .table name = some sourceCell) :
    ∃ cell, target.cell? .table name = some cell ∧ cell.slot = sourceCell.slot := by
  have slots := opens.slots name
  rw [held, Option.map_some, Option.map_eq_some_iff] at slots
  exact slots

/-- Where there is a column, the other entity has one that can hold the same. -/
theorem exists_source (opens : target.OpenTo source) {name : String} {cell : Cell}
    (held : target.cell? .table name = some cell) :
    ∃ sourceCell, source.cell? .table name = some sourceCell ∧ cell.slot = sourceCell.slot := by
  have slots := opens.slots name
  rw [held, Option.map_some, eq_comm, Option.map_eq_some_iff] at slots
  obtain ⟨sourceCell, found, same⟩ := slots
  exact ⟨sourceCell, found, same.symm⟩

/-- Where there is no column, the other entity has none. -/
theorem cell?_eq_none (opens : target.OpenTo source) {name : String}
    (absent : target.cell? .table name = none) : source.cell? .table name = none := by
  have slots := opens.slots name
  rwa [absent, Option.map_none, eq_comm, Option.map_eq_none_iff] at slots

end OpenTo

end Object

namespace Hydrator

variable {hydrator : Hydrator}

/-! ### Restoring -/

/-- A nested entity of a declared type is restored, where so many levels may be opened, when the
registry makes a new one of the type and this one has the same mapping once it is assigned the
mapping. -/
def RestoresNested (hydrator : Hydrator) (levels : Nat) (declared : Declared) (inner : Object) :
    Prop :=
  ∃ fresh final, hydrator.registry.create declared.name = .ok fresh ∧
    fresh.type.hydratable = true ∧ fresh.type.ident = declared.ident ∧
    hydrator.assign levels fresh inner.toMapping = .complete final ∧
    final.toMapping = inner.toMapping

/-- The value of a column is assigned to one that can hold the same and stands there then, when an
entity that it holds can be restored. -/
theorem exists_assignCell? {levels : Nat} (name : String) {cell source : Cell}
    (slot : cell.slot = source.slot) (present : source.toValue.isNull = false)
    (nested : ∀ declared inner, source = .entity declared inner →
      hydrator.RestoresNested levels declared inner) :
    ∃ changed, assignCell? (hydrator.buildWith (hydrator.assign levels)) name source.toValue cell =
      some changed ∧ changed.toValue = source.toValue := by
  cases source with
  | vacant _ => simp [Cell.toValue, Value.isNull] at present
  | plain content =>
    cases cell with
    | entity _ _ | vacant _ => cases slot
    | plain current =>
      have form : current.form = content.form := Slot.plain.inj slot
      obtain ⟨loaded, read, same⟩ := Content.exists_load_toValue form name
      refine ⟨.plain loaded, ?_, same⟩
      rw [assignCell?, assignCell, Cell.toValue, read]
      rfl
  | entity declared inner =>
    obtain ⟨fresh, final, created, hydratable, ident, done, same⟩ := nested declared inner rfl
    have holds : cell.declared? = some declared := by
      cases cell with
      | plain _ => cases slot
      | entity _ _ | vacant _ =>
        cases slot
        rfl
    refine ⟨.entity declared final, ?_, congrArg Value.map same⟩
    have value : (Cell.entity declared inner).toValue = .map inner.toMapping := rfl
    rw [value, assignCell?_entity holds created hydratable ident, done]
    rfl

/-- What becomes of a column of an entity by the mapping of another one that it is open to: it
stands for the value that the other one has there. -/
theorem exists_changes {levels : Nat} {target source : Object} (opens : target.OpenTo source)
    {name : String} {cell : Cell} (held : target.cell? .table name = some cell)
    (nested : ∀ declared inner, source.cell? .table name = some (.entity declared inner) →
      hydrator.RestoresNested levels declared inner) :
    ∃ changed, source.toMapping.changes
        (assignCell? (hydrator.buildWith (hydrator.assign levels))) name cell = some changed ∧
      some changed.toValue = source.value? name := by
  obtain ⟨sourceCell, sourceHeld, slot⟩ := opens.exists_source held
  have value : source.value? name = some sourceCell.toValue := by
    rw [Object.value?, sourceHeld, Option.map_some]
  have found : find? source.toMapping name = some sourceCell.toValue :=
    (Object.find?_toMapping source name).trans value
  have present := Mapping.present?_of_find? found
  rw [Mapping.changes, present, value]
  by_cases null : sourceCell.toValue.isNull
  · -- Null is not assigned, but it stands there already.
    have nothing := Value.eq_null_of_isNull null
    have kept := opens.nulls name (value.trans (congrArg some nothing))
    rw [Object.value?, held, Option.map_some] at kept
    rw [if_pos null]
    exact ⟨cell, rfl, kept.trans (congrArg some nothing.symm)⟩
  · rw [if_neg null]
    rw [Bool.not_eq_true] at null
    obtain ⟨changed, assigned, same⟩ := exists_assignCell? name slot null
      fun declared inner entity => nested declared inner (entity ▸ sourceHeld)
    exact ⟨changed, assigned, congrArg some same⟩

/-- An entity is restored in another one that is open to it. -/
theorem exists_assign_toMapping (unprocessed : hydrator.processors = []) {source : Object}
    (makeable : source.Makeable hydrator.registry) {target : Object}
    (opens : target.OpenTo source) {levels : Nat} (within : source.NestsWithin levels) :
    ∃ final, hydrator.assign (levels + 1) target source.toMapping = .complete final ∧
      final.toMapping = source.toMapping := by
  -- The induction goes into the entities that are restored, each of them in a new one.
  induction makeable generalizing target levels with
  | @mk source declares makes inner ih =>
    have known : ∀ key ∈ keys source.toMapping, (target.cell? .table key).isSome := by
      intro key member
      rw [mem_keys_iff, Object.find?_toMapping, Object.value?, Option.isSome_map] at member
      obtain ⟨sourceCell, sourceHeld⟩ := Option.isSome_iff_exists.mp member
      obtain ⟨cell, held, -⟩ := opens.exists_cell sourceHeld
      rw [held]
      rfl
    have alters := altersAll_assign unprocessed source.sorted_toMapping levels (.inr known)
    have changes : ∀ name cell, target.cell? .table name = some cell →
        ∃ changed, source.toMapping.changes
            (assignCell? (hydrator.buildWith (hydrator.assign levels))) name cell = some changed ∧
          some changed.toValue = source.value? name := by
      intro name cell held
      refine exists_changes opens held fun declared nested entity => ?_
      obtain ⟨ident, named⟩ := declares name declared nested entity
      obtain ⟨fresh, created, hydratable, freshOpens⟩ := makes name declared nested entity
      cases levels with
      | zero => exact absurd entity (within name declared nested)
      | succ levels =>
        obtain ⟨final, done, same⟩ := ih name declared nested entity freshOpens
          (within name declared nested entity)
        exact ⟨fresh, final, by rw [named, created], hydratable,
          by rw [freshOpens.type_eq, ident], done, same⟩
    obtain ⟨final, done⟩ := alters.completes.mpr fun name cell held => by
      obtain ⟨changed, found, -⟩ := changes name cell held
      exact Option.isSome_of_mem found
    refine ⟨final, done, Object.toMapping_ext fun name => ?_⟩
    rw [Object.value?, alters.leaves final done]
    cases held : target.cell? .table name with
    | none =>
      rw [Object.value?, opens.cell?_eq_none held]
      rfl
    | some cell =>
      obtain ⟨changed, found, same⟩ := changes name cell held
      rw [Option.bind_some, found, Option.map_some, same]

/-- A hydrator that neither renames nor processes restores an entity in any other one that is open
to it, whatever else its settings say, when the registry makes the nested entities and they go no
deeper than the hydrator does: hydration succeeds, and afterwards the mappings are equal. -/
theorem setFields_toMapping (unruled : hydrator.rules = []) (unprocessed : hydrator.processors = [])
    {source target : Object} (makeable : source.Makeable hydrator.registry)
    (opens : target.OpenTo source) (within : source.NestsWithin hydrator.settings.maxDepth) :
    ∃ final, hydrator.setFields target source.toMapping = .complete final ∧
      final.toMapping = source.toMapping := by
  obtain ⟨final, done, same⟩ := exists_assign_toMapping unprocessed makeable opens within
  refine ⟨final, Progress.allOrNothing_eq_complete.mpr ?_, same⟩
  have kept : hydrator.rename source.toMapping = source.toMapping := by
    rw [rename, unruled]
    rfl
  rw [hydrate, kept]
  exact done

/-- How a folder holds another one, or none. -/
def folderInside : Declared := ⟨"Folder", "Folder", .optional⟩

/-- A folder by its label, its size if that is known, and the folder inside if there is one. -/
def folder (label : String) (size : Option Int32) (inside : Cell) : Object :=
  .mk ⟨"Folder", "Folder", true, none, none, false⟩
    [("Label", .plain (.scalar .text label)), ("Size", .plain (.scalar (.option .int32) size)),
      ("Inside", inside)] [] []

/-- The columns of a folder. -/
theorem cell?_folder (label : String) (size : Option Int32) (inside : Cell) (key : String) :
    (folder label size inside).cell? .table key =
      if "Label" = key then some (.plain (.scalar .text label))
      else if "Size" = key then some (.plain (.scalar (.option .int32) size))
      else if "Inside" = key then some inside else none := by
  by_cases first : "Label" = key
  · simp [folder, Object.cell?, find?, first]
  · by_cases second : "Size" = key
    · simp [folder, Object.cell?, find?, first, second]
    · by_cases third : "Inside" = key <;>
        simp [folder, Object.cell?, Object.mixedCell?, Scope.reveal, find?, first, second, third]

/-- The only entity in a folder is the folder inside. -/
theorem entity_of_folder {label key : String} {size : Option Int32} {inside : Cell}
    {declared : Declared} {inner : Object}
    (held : (folder label size inside).cell? .table key = some (.entity declared inner)) :
    inside = .entity declared inner := by
  rw [cell?_folder] at held
  split at held
  · simp at held
  · split at held
    · simp at held
    · split at held
      · exact Option.some.inj held
      · simp at held

/-- A new folder is open to any other one. -/
theorem folder_openTo (blank label : String) (size : Option Int32) {inside : Cell}
    (slot : inside.slot = .entity folderInside) :
    (folder blank none (.vacant folderInside)).OpenTo (folder label size inside) where
  type_eq := rfl
  slots name := by
    rw [cell?_folder, cell?_folder]
    split
    · rfl
    · split
      · rfl
      · split
        · rw [Option.map_some, Option.map_some, slot, Cell.slot]
        · rfl
  nulls name absent := by
    rw [Object.value?, cell?_folder] at absent ⊢
    by_cases labelled : "Label" = name
    · simp [labelled, Cell.toValue, Content.toValue, Kind.toValue] at absent
    · by_cases sized : "Size" = name
      · rw [if_neg labelled, if_pos sized]
        rfl
      · by_cases contained : "Inside" = name
        · rw [if_neg labelled, if_neg sized, if_pos contained]
          rfl
        · simp [labelled, sized, contained] at absent

/-- A hydrator for folders that takes no unknown keys and builds one level of nested folders. -/
def filing : Hydrator :=
  { ofRegistry [("Folder", ⟨folder "" none (.vacant folderInside), false⟩)] with
    settings := { Settings.standard with maxDepth := 1, ignoreUnknown := false } }

/-- A folder in a folder is restored in another one. -/
theorem setFields_toMapping_folder :
    ∃ final, filing.setFields (folder "new" none (.vacant folderInside))
        (folder "a" (some 3) (.entity folderInside
          (folder "b" none (.vacant folderInside)))).toMapping = .complete final ∧
      final.toMapping = (folder "a" (some 3) (.entity folderInside
        (folder "b" none (.vacant folderInside)))).toMapping := by
  have innermost : (folder "b" none (.vacant folderInside)).Makeable filing.registry := by
    constructor <;>
      · intro key declared inner held
        cases entity_of_folder held
  refine setFields_toMapping rfl rfl (.mk ?_ ?_ ?_) (folder_openTo "new" "a" (some 3) rfl) ?_
  all_goals
    intro key declared inner held
    cases entity_of_folder held
  · exact ⟨rfl, rfl⟩
  · exact ⟨_, rfl, rfl, folder_openTo "" "b" none rfl⟩
  · exact innermost
  · intro key declared inner held
    cases entity_of_folder held

end Hydrator

end TypedRecord
