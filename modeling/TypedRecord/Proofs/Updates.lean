import TypedRecord.Proofs.Changes
import TypedRecord.Proofs.Coercions
import TypedRecord.Proofs.Hydration
import TypedRecord.Proofs.Order
import TypedRecord.Proofs.RoundTrip

/-!
# Mappings as updates

Reading a mapping into an entity updates the properties that the mapping has and leaves the others,
in nested entities as well. So nothing depends on the entries that no property is read from, and two
updates in a row are one: their overlay, which goes down into nested entities and nowhere else,
since arrays and tables are replaced as a whole. Main statement: an update may be pruned of unknown
keys and of nulls, two updates that succeed are one update by their overlay, and an update that is
made again changes nothing more.
-/
namespace TypedRecord

open Entries

/-! ### Reading a column -/

/-- What a column holds once what a mapping has under its name is read into it, and where that is
stopped. -/
def Cell.receive (name : String) : Option Value → Cell → Progress Cell
  | none, cell => .complete cell
  | some value, .plain content =>
    .ofStep (.plain content) ((content.load name value).map .plain)
  | some (.map entries), .entity declared nested =>
    ((nested.read entries).within name).map (.entity declared)
  | some value, .entity declared nested =>
    .stop (.entity declared nested) (.mismatch (.property name) "map" value.typeName)
  | some _, .vacant declared => .complete (.vacant declared)

/-- What becomes of the column of a name when a mapping is read. -/
def Mapping.receivedBy (data : Mapping) (name : String) (cell : Cell) : Progress Cell :=
  cell.receive name (data.present? name)

namespace Object

variable {name : String} {object : Object}

/-- Reading the entry of a property changes its column by what it holds. -/
theorem readEntry_eq_alterCell (data : Mapping)
    (occupied : ∀ declared, object.cell? .wire name ≠ some (.vacant declared)) :
    readEntry name object data = object.alterCell data.receivedBy name := by
  rw [readEntry_eq]
  cases held : object.cell? .wire name with
  | none =>
    rw [alterCell_of_eq_none held]
    split
    · exact readValue_of_eq_none held _
    · rfl
  | some cell =>
    -- What is not there, or null, leaves the column, and so the entity.
    have unchanged : (Progress.complete cell).map (object.setCell .wire name) =
        .complete object := by
      simp only [Progress.map, Progress.complete, setCell_of_cell? .wire object held]
    rw [alterCell_of_eq_some held, Mapping.receivedBy]
    cases found : find? data name with
    | none =>
      have absent : data.present? name = none := by rw [Mapping.present?, found]
      rw [absent]
      exact unchanged.symm
    | some value =>
      rw [Mapping.present?_of_find? found]
      by_cases null : value.isNull
      · rw [if_pos null, Value.eq_null_of_isNull null]
        simp only [readValue]
        exact unchanged.symm
      · rw [if_neg null]
        rw [Bool.not_eq_true] at null
        cases cell with
        | plain content =>
          simp only [readValue_plain held null, load, Cell.receive]
          cases content.load name value with
          | ok loaded => rfl
          | error error =>
            simp only [Except.map, Progress.ofStep, Progress.stop, Progress.map,
              setCell_of_cell? .wire object held]
        | vacant declared => exact absurd held (occupied declared)
        | entity declared nested =>
          cases value with
          | null => simp [Value.isNull] at null
          | map entries => exact readValue_entity held entries
          | _ =>
            simp only [readValue, held, Cell.receive, Progress.stop, Progress.map,
              setCell_of_cell? .wire object held]

/-- Reading the entries of properties changes their columns one after another. -/
theorem each_readEntry_eq_alter {names : List String} (distinct : names.Nodup) (data : Mapping)
    (occupied : ∀ name ∈ names, ∀ declared, object.cell? .wire name ≠ some (.vacant declared)) :
    Progress.each names (fun state property => readEntry property state data) object =
      object.alter data.receivedBy names := by
  induction names generalizing object with
  | nil => rfl
  | cons name rest ih =>
    obtain ⟨fresh, restDistinct⟩ := List.nodup_cons.mp distinct
    obtain ⟨here, later⟩ := List.forall_mem_cons.mp occupied
    have first := readEntry_eq_alterCell data here
    rw [alter_cons, Progress.each, first]
    refine Progress.andThen_congr fun middle started => ih restDistinct ?_
    intro other member declared
    have different : name ≠ other := fun equal => fresh (equal ▸ member)
    have unchanged := @cell?_alterCell_of_ne data.receivedBy name object other different
    rw [started] at unchanged
    rw [show middle.cell? .wire other = object.cell? .wire other from unchanged]
    exact later other member declared

end Object

/-! ### Shapes -/

namespace WireShape

mutual

/-- Whether the properties of every entity of the shape are distinct. -/
def Distinct : WireShape → Prop
  | .plain _ => True
  | .object fields => (fields.map Prod.fst).Nodup ∧ DistinctFields fields

/-- Whether the properties of every entity in the shapes of properties are distinct. -/
def DistinctFields : List (String × WireShape) → Prop
  | [] => True
  | (_, shape) :: rest => shape.Distinct ∧ DistinctFields rest

end

/-- Shapes of properties that are distinct one by one. -/
theorem distinctFields_iff {fields : List (String × WireShape)} :
    DistinctFields fields ↔ ∀ field ∈ fields, field.2.Distinct := by
  induction fields with
  | nil => simp [DistinctFields]
  | cons field rest ih => simp [DistinctFields, ih]

/-- Whether an entity has the properties of a shape, and its columns hold what the shape says. -/
structure Describes (fields : List (String × WireShape)) (object : Object) : Prop where
  /-- The properties are those of the shape. -/
  properties : object.type.properties = fields.map Prod.fst
  /-- Their columns hold what the shape says. -/
  holds : FitsFields fields object

variable {fields : List (String × WireShape)} {object : Object} {data : Mapping}

/-- A column that a shape describes is not vacant. -/
theorem Fits.ne_vacant {shape : WireShape} {cell : Cell} (fits : shape.Fits cell)
    (declared : Declared) : cell ≠ .vacant declared := by
  rintro rfl
  cases shape <;> exact fits

/-- Reading a mapping into an entity of a shape changes its properties one after another. -/
theorem Describes.read_eq_alter (distinct : (fields.map Prod.fst).Nodup)
    (described : Describes fields object) (data : Mapping) :
    object.read data = object.alter data.receivedBy (fields.map Prod.fst) := by
  rw [Object.read, described.properties]
  refine Object.each_readEntry_eq_alter distinct data fun name member declared held => ?_
  obtain ⟨field, fieldMember, rfl⟩ := List.mem_map.mp member
  obtain ⟨cell, found, fits⟩ := fitsFields_iff.mp described.holds field fieldMember
  exact fits.ne_vacant declared (Option.some.inj (found.symm.trans held))

/-- Changes that keep what a shape says of every column keep what it says of the entity, wherever
they are stopped. -/
theorem Describes.alter (changes : String → Cell → Progress Cell) (names : List String)
    (described : Describes fields object)
    (kept : ∀ field ∈ fields, ∀ cell, field.2.Fits cell →
      field.2.Fits (changes field.1 cell).state) :
    Describes fields (object.alter changes names).state := by
  refine Object.holds_alter (fun state name _ cell stateFits held => ⟨?_, ?_⟩) described
  · rw [Object.type_setCell]
    exact stateFits.properties
  · refine fitsFields_iff.mpr fun field member => ?_
    obtain ⟨found, foundHeld, fits⟩ := fitsFields_iff.mp stateFits.holds field member
    rw [Object.cell?_setCell .wire name field.1 _ state (by rw [held]; rfl)]
    split
    · next same =>
      subst same
      cases held.symm.trans foundHeld
      exact ⟨_, rfl, kept field member cell fits⟩
    · exact ⟨found, foundHeld, fits⟩

/-- Reading keeps what a shape says of the entity, wherever it is stopped, where receiving a value
keeps what it says of every column. -/
theorem Describes.read_state (distinct : (fields.map Prod.fst).Nodup)
    (described : Describes fields object)
    (kept : ∀ field ∈ fields, ∀ cell, field.2.Fits cell → ∀ name value,
      field.2.Fits (cell.receive name value).state) (data : Mapping) :
    Describes fields (object.read data).state := by
  rw [described.read_eq_alter distinct]
  exact described.alter data.receivedBy _ fun field member cell fits =>
    kept field member cell fits _ _

/-- A column of a shape is one of the shape whatever is read into it. -/
theorem fits_receive {shape : WireShape} (distinct : shape.Distinct) {cell : Cell}
    (fits : shape.Fits cell) (name : String) (value : Option Value) :
    shape.Fits (cell.receive name value).state := by
  induction shape using WireShape.induction generalizing cell name value with
  | plain form =>
    cases cell with
    | entity _ _ | vacant _ => exact fits.elim
    | plain content =>
      cases value with
      | none => exact fits
      | some value =>
        rw [Cell.receive]
        cases loading : content.load name value with
        | error error => exact fits
        | ok loaded => exact (Content.form_of_load loading).trans fits
  | object fields ih =>
    obtain ⟨names, inner⟩ := distinct
    cases cell with
    | plain _ | vacant _ => exact fits.elim
    | entity declared nested =>
      cases value with
      | none => exact fits
      | some value =>
        cases value with
        | map entries =>
          have described : Describes fields nested := ⟨fits.1, fits.2⟩
          have kept := described.read_state names (fun field member cell fieldFits =>
            ih field member (distinctFields_iff.mp inner field member) fieldFits) entries
          exact ⟨kept.properties, kept.holds⟩
        | _ => exact fits

/-! ### Pruning -/

mutual

/-- A value for a column of a shape without what is not read of it: the entries of a nested entity
that are null or under no name of its properties. -/
def pruned : WireShape → Value → Value
  | .object fields, .map entries => .map (entries.filterMap fun entry =>
      (prunedEntry fields entry.1 entry.2).map fun value => (entry.1, value))
  | _, value => value

/-- What is left of the value under a key. -/
def prunedEntry : List (String × WireShape) → String → Value → Option Value
  | [], _, _ => none
  | (name, shape) :: rest, key, value =>
    if name = key then if value.isNull then none else some (shape.pruned value)
    else prunedEntry rest key value

end

/-- A mapping for an entity of a shape without what is not read of it. -/
def prunedMapping (fields : List (String × WireShape)) (data : Mapping) : Mapping :=
  data.filterMap fun entry =>
    (prunedEntry fields entry.1 entry.2).map fun value => (entry.1, value)

/-- What is left under the name of a property. -/
theorem prunedEntry_of_mem (distinct : (fields.map Prod.fst).Nodup) {field : String × WireShape}
    (member : field ∈ fields) (value : Value) :
    prunedEntry fields field.1 value =
      if value.isNull then none else some (field.2.pruned value) := by
  induction fields with
  | nil => exact absurd member List.not_mem_nil
  | cons first rest ih =>
    obtain ⟨fresh, restDistinct⟩ := List.nodup_cons.mp distinct
    rw [prunedEntry]
    rcases List.mem_cons.mp member with rfl | later
    · rw [if_pos rfl]
    · rw [if_neg fun same => fresh (List.mem_map.mpr ⟨field, later, same.symm⟩),
        ih restDistinct later]

/-- What is left under a key is the pruned value of a property. -/
theorem exists_of_prunedEntry {key : String} {value left : Value}
    (kept : prunedEntry fields key value = some left) :
    ∃ field ∈ fields, left = field.2.pruned value := by
  induction fields with
  | nil => simp [prunedEntry] at kept
  | cons first rest ih =>
    rw [prunedEntry] at kept
    split at kept
    · split at kept
      · simp at kept
      · exact ⟨first, List.mem_cons_self, (Option.some.inj kept).symm⟩
    · obtain ⟨field, member, same⟩ := ih kept
      exact ⟨field, List.mem_cons_of_mem _ member, same⟩

/-- A pruned value is null when the value is. -/
theorem isNull_pruned (shape : WireShape) (value : Value) :
    (shape.pruned value).isNull = value.isNull := by
  cases shape with
  | plain form => rfl
  | object fields => cases value <;> rfl

/-- What is present in a pruned mapping under the name of a property. -/
theorem present?_prunedMapping (distinct : (fields.map Prod.fst).Nodup) (sorted : data.Sorted)
    {field : String × WireShape} (member : field ∈ fields) :
    (prunedMapping fields data).present? field.1 =
      (data.present? field.1).map field.2.pruned := by
  rw [Mapping.present?_eq_bind, Mapping.present?_eq_bind, prunedMapping,
    sorted.find?_filterMap (prunedEntry fields)]
  cases found : find? data field.1 with
  | none => rfl
  | some value =>
    rw [Option.bind_some, Option.bind_some, prunedEntry_of_mem distinct member]
    by_cases null : value.isNull
    · rw [if_pos null, if_pos null]
      rfl
    · rw [if_neg null, if_neg null, Option.bind_some, isNull_pruned, if_neg null, Option.map_some]

/-- A pruned value is in order when the value is. -/
theorem sorted_pruned (shape : WireShape) {value : Value} (sorted : value.Sorted) :
    (shape.pruned value).Sorted := by
  induction shape using WireShape.induction generalizing value with
  | plain form => exact sorted
  | object fields ih =>
    cases value with
    | map entries =>
      refine ⟨sorted.1.filterMap (prunedEntry fields),
        Value.sortedEntries_iff.mpr fun entry member => ?_⟩
      obtain ⟨before, held, kept⟩ := List.mem_filterMap.mp member
      obtain ⟨left, pruned, rfl⟩ := Option.map_eq_some_iff.mp kept
      obtain ⟨field, fieldMember, rfl⟩ := exists_of_prunedEntry pruned
      exact ih field fieldMember (Value.sortedEntries_iff.mp sorted.2 before held)
    | _ => exact sorted

/-- Nothing that is pruned is read, where that holds of the values of every property. -/
theorem Describes.read_prunedMapping (distinct : (fields.map Prod.fst).Nodup)
    (described : Describes fields object) (ordered : data.Ordered)
    (inner : ∀ field ∈ fields, ∀ {cell : Cell}, field.2.Fits cell → ∀ {value : Value},
      value.Sorted → ∀ name, cell.receive name (some (field.2.pruned value)) =
        cell.receive name (some value)) :
    object.read (prunedMapping fields data) = object.read data := by
  rw [described.read_eq_alter distinct, described.read_eq_alter distinct]
  refine Object.alter_congr distinct fun name member cell held => ?_
  obtain ⟨field, fieldMember, rfl⟩ := List.mem_map.mp member
  obtain ⟨found, foundHeld, fits⟩ := fitsFields_iff.mp described.holds field fieldMember
  cases held.symm.trans foundHeld
  rw [Mapping.receivedBy, Mapping.receivedBy,
    present?_prunedMapping distinct ordered.1 fieldMember]
  cases present : data.present? field.1 with
  | none => rfl
  | some value =>
    exact inner field fieldMember fits
      (ordered.sorted_of_find? (data.find?_of_present? present)) field.1

/-- A column of a shape reads a pruned value as the value. -/
theorem receive_pruned {shape : WireShape} (distinct : shape.Distinct) {cell : Cell}
    (fits : shape.Fits cell) {value : Value} (sorted : value.Sorted) (name : String) :
    cell.receive name (some (shape.pruned value)) = cell.receive name (some value) := by
  induction shape using WireShape.induction generalizing cell value name with
  | plain form => rfl
  | object fields ih =>
    obtain ⟨names, shapes⟩ := distinct
    cases cell with
    | plain _ | vacant _ => exact fits.elim
    | entity declared nested =>
      cases value with
      | map entries =>
        have described : Describes fields nested := ⟨fits.1, fits.2⟩
        have same : nested.read (prunedMapping fields entries) = nested.read entries :=
          described.read_prunedMapping names sorted fun field member =>
            ih field member (distinctFields_iff.mp shapes field member)
        exact congrArg (fun read => (Progress.within read name).map (Cell.entity declared)) same
      | _ => rfl

/-! ### Overlaying -/

mutual

/-- What a column of a shape is read as after two values: the later one, except that mappings for a
nested entity are overlaid. -/
def overlaid : WireShape → Value → Value → Value
  | .object fields, .map first, .map second => .map (overlay first (second.filterMap fun entry =>
      (overlaidEntry fields entry.1 (find? first entry.1) entry.2).map fun value =>
        (entry.1, value)))
  | _, _, second => second

/-- What is put under a key that may have a value: nothing for a null. -/
def overlaidEntry : List (String × WireShape) → String → Option Value → Value → Option Value
  | [], _, _, later => if later.isNull then none else some later
  | (name, shape) :: rest, key, old, later =>
    if name = key then
      if later.isNull then none
      else some (old.elim later fun old => shape.overlaid old later)
    else overlaidEntry rest key old later

end

/-- A mapping for an entity of a shape with a later one put over it. -/
def overlaidMapping (fields : List (String × WireShape)) (first second : Mapping) : Mapping :=
  overlay first (second.filterMap fun entry =>
    (overlaidEntry fields entry.1 (find? first entry.1) entry.2).map fun value => (entry.1, value))

/-- What is put over the value under the name of a property. -/
theorem overlaidEntry_of_mem (distinct : (fields.map Prod.fst).Nodup) {field : String × WireShape}
    (member : field ∈ fields) (old : Option Value) {later : Value}
    (present : later.isNull = false) :
    overlaidEntry fields field.1 old later =
      some (old.elim later fun old => field.2.overlaid old later) := by
  induction fields with
  | nil => exact absurd member List.not_mem_nil
  | cons first rest ih =>
    obtain ⟨fresh, restDistinct⟩ := List.nodup_cons.mp distinct
    rw [overlaidEntry]
    rcases List.mem_cons.mp member with rfl | inRest
    · rw [if_pos rfl, if_neg (by rw [present]; exact Bool.false_ne_true)]
    · rw [if_neg fun same => fresh (List.mem_map.mpr ⟨field, inRest, same.symm⟩),
        ih restDistinct inRest]

/-- A null is put over nothing. -/
theorem overlaidEntry_of_isNull (fields : List (String × WireShape)) (key : String)
    (old : Option Value) {later : Value} (null : later.isNull = true) :
    overlaidEntry fields key old later = none := by
  induction fields with
  | nil => rw [overlaidEntry, if_pos null]
  | cons first rest ih =>
    rw [overlaidEntry, ih, if_pos null]
    split <;> rfl

/-- Over a null a value counts alone. -/
theorem overlaid_of_isNull (shape : WireShape) {old : Value} (null : old.isNull = true)
    (later : Value) : shape.overlaid old later = later := by
  rw [Value.eq_null_of_isNull null]
  cases shape <;> rfl

/-- An overlaid value is null only when the later one is. -/
theorem isNull_overlaid (shape : WireShape) (old later : Value) :
    (shape.overlaid old later).isNull = later.isNull := by
  cases shape with
  | plain form => rfl
  | object fields => cases old <;> cases later <;> rfl

/-- What is present in an overlay under the name of a property. -/
theorem present?_overlaidMapping (distinct : (fields.map Prod.fst).Nodup) {first second : Mapping}
    (sorted : second.Sorted) {field : String × WireShape} (member : field ∈ fields) :
    (overlaidMapping fields first second).present? field.1 =
      match second.present? field.1 with
      | none => first.present? field.1
      | some later =>
        some ((first.present? field.1).elim later fun old => field.2.overlaid old later) := by
  have keys := (sorted.filterMap fun key value =>
    overlaidEntry fields key (find? first key) value).nodup_keys
  rw [Mapping.present?_eq_bind, overlaidMapping, find?_overlay keys,
    sorted.find?_filterMap fun key value => overlaidEntry fields key (find? first key) value,
    Mapping.present?_eq_bind second, Mapping.present?_eq_bind first]
  cases found : find? second field.1 with
  | none => rfl
  | some later =>
    rw [Option.bind_some, Option.bind_some]
    by_cases null : later.isNull
    · rw [overlaidEntry_of_isNull fields field.1 _ null, if_pos null]
      rfl
    · rw [if_neg null]
      rw [Bool.not_eq_true] at null
      rw [overlaidEntry_of_mem distinct member _ null, Option.some_or, Option.bind_some]
      cases find? first field.1 with
      | none => simp [null]
      | some old =>
        rw [Option.elim_some, isNull_overlaid, null, if_neg Bool.false_ne_true, Option.bind_some]
        by_cases before : old.isNull
        · rw [overlaid_of_isNull field.2 before, if_pos before]
          rfl
        · rw [if_neg before]
          rfl

/-- What is put under a key is the later value, over an earlier one that of a property. -/
theorem exists_of_overlaidEntry {key : String} {old : Option Value} {later put : Value}
    (kept : overlaidEntry fields key old later = some put) :
    put = later ∨ ∃ field ∈ fields, ∃ earlier, old = some earlier ∧
      put = field.2.overlaid earlier later := by
  induction fields with
  | nil =>
    rw [overlaidEntry] at kept
    split at kept
    · simp at kept
    · exact .inl (Option.some.inj kept).symm
  | cons first rest ih =>
    rw [overlaidEntry] at kept
    split at kept
    · split at kept
      · simp at kept
      · cases old with
        | none => exact .inl (Option.some.inj kept).symm
        | some earlier =>
          exact .inr ⟨first, List.mem_cons_self, earlier, rfl, (Option.some.inj kept).symm⟩
    · rcases ih kept with same | ⟨field, member, covers⟩
      · exact .inl same
      · exact .inr ⟨field, List.mem_cons_of_mem _ member, covers⟩

/-- An overlaid value is in order when both values are. -/
theorem sorted_overlaid (shape : WireShape) {old later : Value} (oldSorted : old.Sorted)
    (laterSorted : later.Sorted) : (shape.overlaid old later).Sorted := by
  induction shape using WireShape.induction generalizing old later with
  | plain form => exact laterSorted
  | object fields ih =>
    cases old with
    | map first =>
      cases later with
      | map second =>
        refine ⟨oldSorted.1.overlay _, Value.sortedEntries_iff.mpr fun entry member => ?_⟩
        have earlierSorted := Value.sortedEntries_iff.mp oldSorted.2
        rcases mem_overlay member with before | put
        · exact earlierSorted entry before
        · obtain ⟨given, held, kept⟩ := List.mem_filterMap.mp put
          obtain ⟨value, covers, rfl⟩ := Option.map_eq_some_iff.mp kept
          have givenSorted := Value.sortedEntries_iff.mp laterSorted.2 given held
          rcases exists_of_overlaidEntry covers with rfl | ⟨field, inFields, earlier, found, rfl⟩
          · exact givenSorted
          · exact ih field inFields (earlierSorted _ (mem_of_find? found)) givenSorted
      | _ => exact laterSorted
    | _ => exact laterSorted

/-- Two mappings that are read one after the other are read at once as their overlay, where that
holds of the values of every property. -/
theorem Describes.read_overlaidMapping (distinct : (fields.map Prod.fst).Nodup)
    (described : Describes fields object) {first second : Mapping} (firstOrdered : first.Ordered)
    (secondOrdered : second.Ordered)
    (inner : ∀ field ∈ fields, ∀ {cell once twice : Cell}, field.2.Fits cell →
      ∀ {old later : Value}, old.Sorted → later.Sorted → later.isNull = false → ∀ {name},
        cell.receive name (some old) = .complete once →
          once.receive name (some later) = .complete twice →
            cell.receive name (some (field.2.overlaid old later)) = .complete twice)
    (kept : ∀ field ∈ fields, field.2.Distinct) {middle final : Object}
    (started : object.read first = .complete middle)
    (finished : middle.read second = .complete final) :
    object.read (overlaidMapping fields first second) = .complete final := by
  have describedAfter : Describes fields middle := by
    have after := described.read_state distinct
      (fun field member cell fits => fits_receive (kept field member) fits) first
    rwa [started] at after
  rw [described.read_eq_alter distinct] at started ⊢
  rw [describedAfter.read_eq_alter distinct] at finished
  refine Object.alter_of_alter distinct (fun name member cell once twice held changed again => ?_)
    started finished
  obtain ⟨field, fieldMember, rfl⟩ := List.mem_map.mp member
  obtain ⟨found, foundHeld, fits⟩ := fitsFields_iff.mp described.holds field fieldMember
  cases held.symm.trans foundHeld
  rw [Mapping.receivedBy] at changed again ⊢
  rw [present?_overlaidMapping distinct secondOrdered.1 fieldMember]
  cases later? : second.present? field.1 with
  | none =>
    rw [later?] at again
    cases again
    exact changed
  | some later =>
    rw [later?] at again
    cases old? : first.present? field.1 with
    | none =>
      rw [old?] at changed
      cases changed
      exact again
    | some old =>
      rw [old?] at changed
      have oldSorted := firstOrdered.sorted_of_find? (first.find?_of_present? old?)
      have laterSorted := secondOrdered.sorted_of_find? (second.find?_of_present? later?)
      exact inner field fieldMember fits oldSorted laterSorted
        (second.isNull_of_present? later?) changed again

/-- A column of a shape that reads two values one after the other reads them at once. -/
theorem receive_overlaid {shape : WireShape} (distinct : shape.Distinct) {cell once twice : Cell}
    (fits : shape.Fits cell) {old later : Value} (oldSorted : old.Sorted)
    (laterSorted : later.Sorted) (present : later.isNull = false) {name : String}
    (changed : cell.receive name (some old) = .complete once)
    (again : once.receive name (some later) = .complete twice) :
    cell.receive name (some (shape.overlaid old later)) = .complete twice := by
  induction shape using WireShape.induction generalizing cell once twice old later name with
  | plain form =>
    cases cell with
    | entity _ _ | vacant _ => exact fits.elim
    | plain content =>
      -- What was loaded first has the same form, so the later value is loaded as into the old one.
      rw [Cell.receive, Progress.ofStep_eq_complete] at changed
      cases loading : content.load name old with
      | error error => simp [loading, Except.map] at changed
      | ok loaded =>
        rw [loading] at changed
        cases changed
        rw [Cell.receive, Progress.ofStep_eq_complete,
          Content.load_congr (Content.form_of_load loading)] at again
        exact Progress.ofStep_eq_complete.mpr again
  | object fields ih =>
    obtain ⟨names, shapes⟩ := distinct
    have inner := distinctFields_iff.mp shapes
    cases cell with
    | plain _ | vacant _ => exact fits.elim
    | entity declared nested =>
      cases old with
      | map first =>
        obtain ⟨middle, started, rfl⟩ := Progress.map_eq_complete.mp changed
        cases later with
        | map second =>
          obtain ⟨final, finished, rfl⟩ := Progress.map_eq_complete.mp again
          have described : Describes fields nested := ⟨fits.1, fits.2⟩
          have read := described.read_overlaidMapping names oldSorted laterSorted
            (fun field member => ih field member (inner field member)) inner
            (Progress.within_eq_complete.mp started) (Progress.within_eq_complete.mp finished)
          exact Progress.map_eq_complete.mpr
            ⟨final, Progress.within_eq_complete.mpr read, rfl⟩
        | null => simp [Value.isNull] at present
        | _ => simp [Cell.receive, Progress.stop, Progress.complete] at again
      | null => simp [Cell.receive, Progress.stop, Progress.complete] at changed
      | _ => simp [Cell.receive, Progress.stop, Progress.complete] at changed

/-! ### Repeating -/

/-- A mapping that is read again leaves what it left, wherever it is stopped, where that holds of
the values of every property. -/
theorem Describes.read_state_read (distinct : (fields.map Prod.fst).Nodup)
    (described : Describes fields object) (kept : ∀ field ∈ fields, field.2.Distinct)
    (inner : ∀ field ∈ fields, ∀ {cell : Cell}, field.2.Fits cell → ∀ name value,
      (cell.receive name value).state.receive name value = cell.receive name value)
    (data : Mapping) : (object.read data).state.read data = object.read data := by
  have after : Describes fields (object.read data).state := described.read_state distinct
    (fun field member cell fits => fits_receive (kept field member) fits) data
  rw [after.read_eq_alter distinct, described.read_eq_alter distinct]
  refine Object.alter_state_alter distinct fun name member cell held => ?_
  obtain ⟨field, fieldMember, rfl⟩ := List.mem_map.mp member
  obtain ⟨found, foundHeld, fits⟩ := fitsFields_iff.mp described.holds field fieldMember
  cases held.symm.trans foundHeld
  exact inner field fieldMember fits field.1 _

/-- A column of a shape that reads a value again holds what it held. -/
theorem receive_state_receive {shape : WireShape} (distinct : shape.Distinct) {cell : Cell}
    (fits : shape.Fits cell) (name : String) (value : Option Value) :
    (cell.receive name value).state.receive name value = cell.receive name value := by
  induction shape using WireShape.induction generalizing cell name value with
  | plain form =>
    cases cell with
    | entity _ _ | vacant _ => exact fits.elim
    | plain content =>
      cases value with
      | none => rfl
      | some value =>
        rw [Cell.receive]
        cases loading : content.load name value with
        | error error =>
          simp only [Except.map, Progress.ofStep, Progress.stop, Cell.receive, loading]
        | ok loaded =>
          have again := (Content.load_congr (Content.form_of_load loading) name value).trans loading
          simp only [Except.map, Progress.ofStep, Progress.complete, Cell.receive, again]
  | object fields ih =>
    obtain ⟨names, shapes⟩ := distinct
    have inner := distinctFields_iff.mp shapes
    cases cell with
    | plain _ | vacant _ => exact fits.elim
    | entity declared nested =>
      cases value with
      | none => rfl
      | some value =>
        cases value with
        | map entries =>
          have described : Describes fields nested := ⟨fits.1, fits.2⟩
          have same := described.read_state_read names inner
            (fun field member => ih field member (inner field member)) entries
          exact congrArg (fun read => (Progress.within read name).map (Cell.entity declared)) same
        | _ => rfl

end WireShape

namespace Object

/-- The empty mapping changes nothing. -/
theorem read_nil (object : Object) : object.read [] = .complete object := by
  rw [Object.read]
  induction object.type.properties with
  | nil => rfl
  | cons name rest ih => exact ih

/-- Reading a mapping is a sparse update. What the shape of the entity does not read, and nulls, may
be left out of the mapping, in nested entities as well, and neither the entity that is left nor the
error changes. Two mappings that are read one after the other may be read at once, as their overlay.
A mapping that is read again changes nothing, also where it is stopped, and neither does the empty
one. -/
theorem read_update {fields : List (String × WireShape)} {object : Object}
    (distinct : (WireShape.object fields).Distinct)
    (described : WireShape.Describes fields object) :
    (∀ data : Mapping, data.Ordered → (WireShape.prunedMapping fields data).Ordered ∧
      object.read (WireShape.prunedMapping fields data) = object.read data) ∧
    (∀ first second : Mapping, first.Ordered → second.Ordered →
      (WireShape.overlaidMapping fields first second).Ordered ∧
      ∀ middle final, object.read first = .complete middle →
        middle.read second = .complete final →
          object.read (WireShape.overlaidMapping fields first second) = .complete final) ∧
    (∀ data : Mapping, (object.read data).state.read data = object.read data) ∧
    object.read [] = .complete object := by
  obtain ⟨names, shapes⟩ := distinct
  have inner := WireShape.distinctFields_iff.mp shapes
  refine ⟨fun data ordered => ⟨?_, ?_⟩, fun first second firstOrdered secondOrdered => ⟨?_, ?_⟩,
    ?_, ?_⟩
  · exact (WireShape.object fields).sorted_pruned ordered
  · exact described.read_prunedMapping names ordered fun field member =>
      WireShape.receive_pruned (inner field member)
  · exact (WireShape.object fields).sorted_overlaid firstOrdered secondOrdered
  · intro middle final started finished
    exact described.read_overlaidMapping names firstOrdered secondOrdered
      (fun field member => WireShape.receive_overlaid (inner field member)) inner started finished
  · exact described.read_state_read names inner fun field member =>
      WireShape.receive_state_receive (inner field member)
  · exact read_nil object

/-- Two updates of a trip: the second one leaves its time, has a key that no stop has and marks the
stop anew. -/
theorem read_update_trip :
    let moved : Mapping := [("At", .int 5), ("Stop", .map [("Marks", .list [.blob [1]])])]
    let marked : Mapping :=
      [("At", .null), ("Stop", .map [("Marks", .list [.null]), ("Note", .int 1)])]
    WireShape.prunedMapping tripFields marked = [("Stop", .map [("Marks", .list [.null])])] ∧
      (trip ⟨9⟩ []).read (WireShape.prunedMapping tripFields marked) =
        (trip ⟨9⟩ []).read marked ∧
      (trip ⟨9⟩ []).read (WireShape.overlaidMapping tripFields moved marked) =
        .complete (trip ⟨5⟩ [none]) := by
  intro moved marked
  have distinct : (WireShape.object tripFields).Distinct :=
    ⟨by decide, trivial, ⟨by decide, trivial, trivial⟩, trivial⟩
  have described : WireShape.Describes tripFields (trip ⟨9⟩ []) :=
    ⟨rfl, ⟨_, rfl, rfl⟩, ⟨_, rfl, rfl, ⟨_, rfl, rfl⟩, trivial⟩, trivial⟩
  have movedOrdered : moved.Ordered :=
    ⟨by decide, trivial, ⟨by decide, ⟨trivial, trivial⟩, trivial⟩, trivial⟩
  have markedOrdered : marked.Ordered :=
    ⟨by decide, trivial, ⟨by decide, ⟨trivial, trivial⟩, trivial, trivial⟩, trivial⟩
  obtain ⟨prunes, composes, -, -⟩ := read_update distinct described
  refine ⟨rfl, (prunes marked markedOrdered).2, ?_⟩
  exact (composes moved marked movedOrdered markedOrdered).2 (trip ⟨5⟩ [some [1]]) _ rfl rfl

end Object

end TypedRecord
