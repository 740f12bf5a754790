import TypedRecord.Entity.Component
import TypedRecord.Proofs.Assignment
import TypedRecord.Proofs.Kinds
import TypedRecord.Proofs.Order
import TypedRecord.Proofs.Tables

/-!
# What a hydrated entity holds

A relation says what hydration is for, without the order in which it works: under every name with a
value to assign stands what the value is in a column of that make, and for a nested entity a fresh
one hydrated in turn; every other column is as it was, and so is everything that is hidden. Main
statement: a hydration that succeeds stands in that relation, at every level.
-/
namespace TypedRecord

open Entries

/-! ### Lists read back as they are -/

/-- Items that are what they are read as make the same list again. -/
theorem Kind.map_loadItems {kind : Kind}
    (faithful : ∀ item data, kind.ofValue? item = some data → kind.toValue data = item)
    {name : String} {position : Nat} {items : List Value} {loaded : List kind.Carrier}
    (read : kind.loadItems name position items = .ok loaded) :
    loaded.map kind.toValue = items := by
  induction items generalizing position loaded with
  | nil =>
    rw [Kind.loadItems, Except.ok.injEq] at read
    rw [← read, List.map_nil]
  | cons item rest ih =>
    obtain ⟨data, others, first, later, rfl⟩ := Kind.loadItems_cons_eq_ok.mp read
    rw [List.map_cons, faithful item data first, ih later]

/-- An array of such items stands for the value that was loaded into it. -/
theorem Content.toValue_load_array {kind : Kind}
    (faithful : ∀ item data, kind.ofValue? item = some data → kind.toValue data = item)
    {name : String} {value : Value} {old : List kind.Carrier} {loaded : Content}
    (read : (Content.array kind old).load name value = .ok loaded) : loaded.toValue = value := by
  obtain ⟨items, data, rfl, inner, rfl⟩ := Content.load_array_eq_ok.mp read
  rw [Content.toValue, Kind.map_loadItems faithful inner]

/-- A text is what it is read as. -/
theorem Kind.toValue_text (item : Value) (data : Kind.text.Carrier)
    (read : Kind.text.ofValue? item = some data) : Kind.text.toValue data = item := by
  cases item with
  | text content =>
    cases read
    rfl
  | _ => simp [Kind.ofValue?, Value.asText?] at read

/-- A mapping is what it is read as. -/
theorem Kind.toValue_map (item : Value) (data : Kind.map.Carrier)
    (read : Kind.map.ofValue? item = some data) : Kind.map.toValue data = item := by
  cases item with
  | map entries =>
    cases read
    rfl
  | _ => simp [Kind.ofValue?, Value.asMap?] at read

/-- A value that is present under a key is found there and is not null. -/
theorem Mapping.present?_eq_bind (mapping : Mapping) (key : String) :
    mapping.present? key =
      (find? mapping key).bind fun value => if value.isNull then none else some value := by
  rw [Mapping.present?]
  cases find? mapping key with
  | none => rfl
  | some value => cases value <;> rfl

/-- A value that is found is present unless it is null. -/
theorem Mapping.present?_of_find? {data : Mapping} {name : String} {value : Value}
    (found : find? data name = some value) :
    data.present? name = if value.isNull then none else some value := by
  rw [present?_eq_bind, found, Option.bind_some]

/-- A value that is present is found. -/
theorem Mapping.find?_of_present? (data : Mapping) {name : String} {value : Value}
    (present : data.present? name = some value) : find? data name = some value := by
  rw [present?_eq_bind, Option.bind_eq_some_iff] at present
  obtain ⟨found, held, kept⟩ := present
  split at kept
  · simp at kept
  · rw [held, kept]

/-- A value that is present is not null. -/
theorem Mapping.isNull_of_present? (data : Mapping) {name : String} {value : Value}
    (present : data.present? name = some value) : value.isNull = false := by
  have found := present?_of_find? (data.find?_of_present? present)
  rw [present] at found
  by_contra null
  simp [null] at found

namespace Hydrator

variable {hydrator : Hydrator} {build : String → Mapping → Except Error Object}

/-! ### Processing -/

/-- A mapping with every value processed under its key, up to the first that is refused. -/
def processAll (hydrator : Hydrator) : Mapping → Except Error Mapping
  | [] => .ok []
  | (key, raw) :: rest => match hydrator.process key raw with
    | .error error => .error error
    | .ok value => (processAll hydrator rest).map ((key, value) :: ·)

/-- Whether processing keeps the maps inside a value in order, as every value that a program makes
has them. -/
def KeepsOrder (hydrator : Hydrator) : Prop :=
  ∀ key raw value, raw.Sorted → hydrator.process key raw = .ok value → value.Sorted

/-- What is present in a processed mapping is what arrives out of the mapping. -/
theorem present?_processAll {values processed : Mapping}
    (done : hydrator.processAll values = .ok processed) (name : String) :
    processed.present? name = hydrator.arrival? values name := by
  induction values generalizing processed with
  | nil =>
    rw [processAll, Except.ok.injEq] at done
    rw [← done]
    rfl
  | cons entry rest ih =>
    obtain ⟨key, raw⟩ := entry
    rw [processAll] at done
    cases first : hydrator.process key raw with
    | error error => simp [first] at done
    | ok value =>
      cases later : hydrator.processAll rest with
      | error error => simp [first, later, Except.map] at done
      | ok others =>
        simp only [first, later, Except.map, Except.ok.injEq] at done
        subst done
        have restPresent := ih later
        rw [Mapping.present?_eq_bind] at restPresent ⊢
        rw [arrival?, find?, find?]
        by_cases here : key = name
        · subst here
          simp [arriving?, first]
        · rw [if_neg here, if_neg here, restPresent, arrival?]

/-- A complete assignment has processed every value. -/
theorem exists_processAll {values : Mapping} {object final : Object}
    (done : Progress.each values (hydrator.assignEntry build) object = .complete final) :
    ∃ processed, hydrator.processAll values = .ok processed := by
  induction values generalizing object with
  | nil => exact ⟨[], rfl⟩
  | cons entry rest ih =>
    obtain ⟨key, raw⟩ := entry
    obtain ⟨middle, first, later⟩ := Progress.each_cons_eq_complete.mp done
    obtain ⟨others, restDone⟩ := ih later
    cases processed : hydrator.process key raw with
    | error error => simp [assignEntry, processed, Progress.stop, Progress.complete] at first
    | ok value =>
      refine ⟨(key, value) :: others, ?_⟩
      simp [processAll, processed, restDone, Except.map]

/-! ### What assignment leaves alone -/

/-- A complete assignment of one entry replaces a column or nothing. -/
theorem assignEntry_eq_complete {object next : Object} {entry : String × Value}
    (done : hydrator.assignEntry build object entry = .complete next) :
    next = object ∨ ∃ cell, next = object.setCell .table entry.1 cell := by
  rw [assignEntry] at done
  cases processed : hydrator.process entry.1 entry.2 with
  | error error => simp [processed, Progress.stop, Progress.complete] at done
  | ok value =>
    simp only [processed, assignValue] at done
    split at done
    · exact .inl (congrArg Progress.state done).symm
    · split at done
      · split at done
        · exact .inl (congrArg Progress.state done).symm
        · simp [Progress.stop, Progress.complete] at done
      · next cell held =>
        rw [Progress.ofStep_eq_complete] at done
        cases assigned : assignCell build entry.1 value cell with
        | error error => simp [assigned, Except.map] at done
        | ok changed =>
          rw [assigned, Except.map, Except.ok.injEq] at done
          exact .inr ⟨changed, done.symm⟩

/-- Whatever a replaced column leaves alone, a complete assignment leaves alone. -/
theorem view_of_assigned {α : Type} {view : Object → α}
    (kept : ∀ object name cell, view (object.setCell .table name cell) = view object)
    {entries : Mapping} {object final : Object}
    (done : Progress.each entries (hydrator.assignEntry build) object = .complete final) :
    view final = view object := by
  induction entries generalizing object with
  | nil => rw [Progress.each_nil_eq_complete.mp done]
  | cons entry rest ih =>
    obtain ⟨middle, first, later⟩ := Progress.each_cons_eq_complete.mp done
    have same : view middle = view object := by
      rcases assignEntry_eq_complete first with rfl | ⟨cell, rfl⟩
      · rfl
      · exact kept object entry.1 cell
    rw [ih later, same]

/-! ### The relation -/

/-- What a column has as its value once another one was assigned to it, where `nested` says what
becomes of a fresh entity: a single datum is what the value is read as, a list of texts or of
mappings is the value itself, and an entity is one that the registry made of the declared type and
that was hydrated from the map. -/
def Receives (hydrator : Hydrator) (nested : Object → Mapping → Object → Prop) (name : String)
    (value held : Value) : Cell → Prop
  | .plain (.scalar kind _) => ∃ data, kind.ofValue? value = some data ∧ held = kind.toValue data
  | .plain (.array .text _) | .plain (.array .map _) => held = value
  | .plain content => ∃ loaded, content.load name value = .ok loaded ∧ held = loaded.toValue
  | .entity declared _ | .vacant declared => ∃ entries fresh built,
    value = .map entries ∧ hydrator.registry.create declared.name = .ok fresh ∧
      fresh.type.ident = declared.ident ∧ nested fresh entries built ∧ held = .map built.toMapping

/-- An entity is hydrated from a mapping, within so many levels, when under each of its names stands
what was present there once every value was processed, or else what stood there before, and nothing
else has changed. -/
def Hydrates (hydrator : Hydrator) : Nat → Object → Mapping → Object → Prop
  | 0, _, _, _ => False
  | levels + 1, before, values, after =>
    (∃ processed, hydrator.processAll values = .ok processed ∧
      ∀ name ∈ before.names, ∃ cell, before.cell? .table name = some cell ∧
        match processed.present? name with
        | none => after.cell? .table name = some cell
        | some value => ∃ held, after.value? name = some held ∧
          hydrator.Receives (Hydrates hydrator levels) name value held cell) ∧
    after.type = before.type ∧ after.skipped = before.skipped

/-- A hydrated entity is of the type that it was. -/
theorem Hydrates.type_eq {levels : Nat} {before after : Object} {values : Mapping}
    (hydrated : hydrator.Hydrates levels before values after) : after.type = before.type := by
  cases levels with
  | zero => exact hydrated.elim
  | succ levels => exact hydrated.2.1

/-- A column that is assigned a value receives it, if hydration inside is what it should be. -/
theorem receives_of_assignCell {levels : Nat} {name : String} {value : Value} {cell changed : Cell}
    (inner : ∀ fresh entries built, value = .map entries →
      hydrator.assign levels fresh entries = .complete built →
        hydrator.Hydrates levels fresh entries built)
    (done : assignCell (hydrator.buildWith (hydrator.assign levels)) name value cell =
      .ok changed) :
    hydrator.Receives (hydrator.Hydrates levels) name value changed.toValue cell := by
  have entity : ∀ declared : Declared,
      (nest (hydrator.buildWith (hydrator.assign levels)) declared name value).map
        (.entity declared) = .ok changed →
      ∃ entries fresh built, value = .map entries ∧
        hydrator.registry.create declared.name = .ok fresh ∧ fresh.type.ident = declared.ident ∧
          hydrator.Hydrates levels fresh entries built ∧
            changed.toValue = .map built.toMapping := by
    intro declared nesting
    cases nested : nest (hydrator.buildWith (hydrator.assign levels)) declared name value with
    | error error => simp [nested, Except.map] at nesting
    | ok built =>
      rw [nested, Except.map, Except.ok.injEq] at nesting
      obtain ⟨entries, isMap, made, ident⟩ := nest_eq_ok.mp nested
      obtain ⟨fresh, created, -, complete⟩ := buildWith_eq_ok.mp made
      have hydrated := inner fresh entries built isMap complete
      rw [hydrated.type_eq] at ident
      exact ⟨entries, fresh, built, isMap, created, ident, hydrated, by rw [← nesting]; rfl⟩
  cases cell with
  | entity declared object => exact entity declared done
  | vacant declared => exact entity declared done
  | plain content =>
    rw [assignCell] at done
    cases read : content.load name value with
    | error error => simp [read, Except.map] at done
    | ok loaded =>
      rw [read, Except.map, Except.ok.injEq] at done
      subst done
      show hydrator.Receives _ name value loaded.toValue (.plain content)
      cases content with
      | scalar kind old =>
        rw [Content.load] at read
        cases data : kind.ofValue? value with
        | none => simp [data] at read
        | some datum =>
          simp only [data, Except.ok.injEq] at read
          exact ⟨datum, data, by rw [← read]; rfl⟩
      | array kind old =>
        cases kind with
        | text => exact Content.toValue_load_array Kind.toValue_text read
        | map => exact Content.toValue_load_array Kind.toValue_map read
        | _ => exact ⟨loaded, read, rfl⟩
      | table kind old => exact ⟨loaded, read, rfl⟩

/-- What arrives out of an ordered mapping is in order. -/
theorem sorted_arrival? (keeps : hydrator.KeepsOrder) {values : Mapping} (ordered : values.Ordered)
    {name : String} {value : Value} (arrived : hydrator.arrival? values name = some value) :
    value.Sorted := by
  obtain ⟨raw, found, arriving⟩ := Option.bind_eq_some_iff.mp arrived
  rw [arriving?] at arriving
  cases processing : hydrator.process name raw with
  | error error => simp [processing] at arriving
  | ok result =>
    have sorted := keeps name raw result (ordered.sorted_of_find? found) processing
    simp only [processing] at arriving
    split at arriving
    · simp at arriving
    · rw [← Option.some.inj arriving]
      exact sorted

/-- Where something has arrived in a column, the column holds what assigning it there makes. -/
theorem assignCell_of_landed {name : String} {value : Value} {cell : Cell} {after : Option Cell}
    (step : landed build name (some value) (some cell) = .ok after) :
    ∃ changed, assignCell build name value cell = .ok changed ∧ after = some changed := by
  rw [landed] at step
  cases assigned : assignCell build name value cell with
  | error error => simp [assigned, Except.map] at step
  | ok changed =>
    rw [assigned, Except.map, Except.ok.injEq] at step
    exact ⟨changed, rfl, step.symm⟩

/-- A complete assignment of an ordered mapping hydrates the entity. -/
theorem hydrates_of_assign (keeps : hydrator.KeepsOrder) {levels : Nat} {object final : Object}
    {values : Mapping} (ordered : values.Ordered)
    (done : hydrator.assign levels object values = .complete final) :
    hydrator.Hydrates levels object values final := by
  induction levels generalizing object final values with
  | zero => simp [assign, Progress.stop, Progress.complete] at done
  | succ levels ih =>
    have assigned : Progress.each values
        (hydrator.assignEntry (hydrator.buildWith (hydrator.assign levels))) object =
          .complete final := done
    obtain ⟨processed, all⟩ := exists_processAll assigned
    refine ⟨⟨processed, all, fun name member => ?_⟩, ?_, ?_⟩
    · obtain ⟨cell, held⟩ :=
        Option.isSome_iff_exists.mp ((Object.mem_names_iff name object).mp member)
      have step := landed_of_assigned ordered.1 assigned name
      rw [held] at step
      refine ⟨cell, held, ?_⟩
      rw [present?_processAll all name]
      cases arrived : hydrator.arrival? values name with
      | none =>
        rw [arrived, landed] at step
        · exact (Except.ok.inj step).symm
        · simp
      | some value =>
        rw [arrived] at step
        obtain ⟨changed, changing, after⟩ := assignCell_of_landed step
        refine ⟨changed.toValue, by rw [Object.value?, after, Option.map_some], ?_⟩
        have sorted := sorted_arrival? keeps ordered arrived
        apply receives_of_assignCell _ changing
        rintro fresh entries built rfl complete
        exact ih sorted complete
    · exact view_of_assigned (fun object name cell => object.type_setCell .table name cell) assigned
    · exact view_of_assigned (fun object name cell => Object.skipped_setCell name cell object)
        assigned

/-- A hydration that succeeds, whatever it started from, hydrates the entity from the renamed
mapping: what is present there under a name is what the column of the name stands for afterwards,
a nested entity being a fresh one that was hydrated in the same way, and everything else is as it
was. -/
theorem hydrates_of_setFields (keeps : hydrator.KeepsOrder) {object final : Object}
    {values : Mapping} (ordered : values.Ordered)
    (done : hydrator.setFields object values = .complete final) :
    hydrator.Hydrates hydrator.levels object (hydrator.rename values) final :=
  hydrates_of_assign keeps (hydrator.ordered_rename ordered)
    (Progress.allOrNothing_eq_complete.mp done)

/-- A place by its town, its street and a floor. -/
def place (town street : String) (floor : Int64) : Object :=
  .mk ⟨"Place", "Place", true, none, none, false⟩
    [("Town", .plain (.scalar .text town)), ("Street", .plain (.scalar .text street)),
      ("Floor", .plain (.scalar .int64 floor))] [] []

/-- A parcel with an identity, marks, the place it goes to and a hidden weight. -/
def parcel (marks : List String) (goal : Object) : Object :=
  .mk ⟨"Parcel", "Parcel", true, none, none, false⟩
    [("Marks", .plain (.array .text marks)),
      ("Place", .entity ⟨"Place", "Place", .reference⟩ goal)]
    [.identity "id-0"] [("Weight", .plain (.scalar .int64 3))]

/-- A hydrator that makes places, moves a street into one and gives every town the same name. -/
def forwarding : Hydrator where
  registry := [("Place", ⟨place "" "" 0, false⟩)]
  rules := Rules.rename [] "street" "Place.Street"
  processors := [("Town", fun _ _ => .ok (.text "LYON"))]
  settings := .standard

/-- What a parcel is hydrated from. -/
def forwarded : Mapping :=
  [("Id", .null), ("Marks", .list [.text "new"]), ("Place", .map [("Town", .text "Lyon")]),
    ("Weight", .int 7), ("street", .text "Rue")]

/-- A processor that answers a text keeps values in order. -/
theorem forwarding_keepsOrder : forwarding.KeepsOrder := by
  intro key raw value sorted done
  simp only [process, forwarding, find?] at done
  by_cases named : "Town" = key
  · rw [if_pos named] at done
    rw [← Except.ok.inj done]
    trivial
  · rw [if_neg named] at done
    rw [← Except.ok.inj done]
    exact sorted

/-- Nothing of the old place is left, not even the floor that the mapping does not name, and the
hidden weight cannot be reached. -/
theorem forwarding_setFields :
    forwarding.setFields (parcel ["old"] (place "Nice" "Quai" 5)) forwarded =
      .complete (parcel ["new"] (place "LYON" "Rue" 0)) := by
  have renamed : forwarding.rename forwarded =
      [("Id", .null), ("Marks", .list [.text "new"]),
        ("Place", .map [("Street", .text "Rue"), ("Town", .text "Lyon")]), ("Weight", .int 7)] :=
    rfl
  rw [setFields, hydrate, renamed]
  rfl

/-- A parcel is forwarded. -/
theorem hydrates_of_setFields_parcel :
    forwarding.KeepsOrder ∧ forwarded.Ordered ∧
      forwarding.setFields (parcel ["old"] (place "Nice" "Quai" 5)) forwarded =
        .complete (parcel ["new"] (place "LYON" "Rue" 0)) ∧
      forwarding.Hydrates forwarding.levels (parcel ["old"] (place "Nice" "Quai" 5))
        (forwarding.rename forwarded) (parcel ["new"] (place "LYON" "Rue" 0)) := by
  have ordered : forwarded.Ordered :=
    ⟨by decide, trivial, ⟨trivial, trivial⟩, ⟨by decide, trivial, trivial⟩, trivial, trivial,
      trivial⟩
  exact ⟨forwarding_keepsOrder, ordered, forwarding_setFields,
    hydrates_of_setFields forwarding_keepsOrder ordered forwarding_setFields⟩

end Hydrator

end TypedRecord
