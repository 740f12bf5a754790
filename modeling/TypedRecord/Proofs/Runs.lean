import TypedRecord.Proofs.Failure
import TypedRecord.Proofs.Refusals

/-!
# Runs of assignments

A run goes through states that all have the slots of the entity it started with: under every name a
column for the same, whatever it holds. So whether an entry can be assigned is the same before and
within a run. An entry is assigned or not for one of a few reasons, which are listed here once, down
to the entities that are built.
-/
namespace TypedRecord

open Entries

/-! ### What a run keeps -/

namespace Progress

variable {α β : Type} {items : List β} {step other : α → β → Progress α} {state : α}

/-- The result of work is an error when the work is stopped by it. -/
theorem result_eq_error {progress : Progress α} {error : Error} :
    progress.result = .error error ↔ progress.stopped = some error := by
  obtain ⟨state, stopped⟩ := progress
  cases stopped <;> simp [result]

/-- The result of work that is all or nothing is that of the work. -/
theorem result_allOrNothing (before : α) (progress : Progress α) :
    (progress.allOrNothing before).result = progress.result := by
  obtain ⟨state, stopped⟩ := progress
  cases stopped <;> rfl

/-- A step that changes the state or fails is stopped by what it fails with. -/
theorem stopped_ofStep {outcome : Except Error α} {error : Error} :
    (ofStep state outcome).stopped = some error ↔ outcome = .error error := by
  cases outcome <;> simp [ofStep, complete, stop]

/-- What every complete step keeps holds after complete work, and every item of it was complete
where that held. -/
theorem holds_of_complete (holds : α → Prop)
    (kept : ∀ item ∈ items, ∀ state next, holds state → step state item = complete next →
      holds next)
    (start : holds state) {final : α} (done : each items step state = complete final) :
    holds final ∧ ∀ item ∈ items, ∃ before after, holds before ∧
      step before item = complete after := by
  induction items generalizing state with
  | nil =>
    cases done
    exact ⟨start, by simp⟩
  | cons item rest ih =>
    obtain ⟨here, later⟩ := List.forall_mem_cons.mp kept
    obtain ⟨middle, started, finished⟩ := each_cons_eq_complete.mp done
    obtain ⟨reached, others⟩ := ih later (here state middle start started) finished
    exact ⟨reached, List.forall_mem_cons.mpr ⟨⟨state, middle, start, started⟩, others⟩⟩

/-- What every complete step keeps holds where work stops. -/
theorem exists_stopped_of_holds (holds : α → Prop)
    (kept : ∀ item ∈ items, ∀ state next, holds state → step state item = complete next →
      holds next)
    (start : holds state) {error : Error} (stopped : (each items step state).stopped = some error) :
    ∃ item ∈ items, ∃ reached, holds reached ∧ (step reached item).stopped = some error := by
  obtain ⟨before, item, after, reached, rfl, completed, failed, -⟩ := exists_of_stopped stopped
  have keptBefore := fun earlier member => kept earlier (List.mem_append_left _ member)
  exact ⟨item, List.mem_append_right _ List.mem_cons_self, reached,
    (holds_of_complete holds keptBefore start completed).1, failed⟩

/-- Works with steps that agree wherever something holds that they keep come to the same. -/
theorem each_congr (holds : α → Prop)
    (kept : ∀ item ∈ items, ∀ state next, holds state → step state item = complete next →
      holds next)
    (agree : ∀ item ∈ items, ∀ state, holds state → step state item = other state item)
    (start : holds state) : each items step state = each items other state := by
  induction items generalizing state with
  | nil => rfl
  | cons item rest ih =>
    obtain ⟨keptHere, keptLater⟩ := List.forall_mem_cons.mp kept
    obtain ⟨here, later⟩ := List.forall_mem_cons.mp agree
    rw [each, each, ← here state start]
    exact andThen_congr fun middle started =>
      ih keptLater later (keptHere state middle start started)

end Progress

namespace Object

/-- Entities have the same slots when their columns can hold the same under every name. -/
def SameSlots (first second : Object) : Prop :=
  ∀ name, (first.cell? .table name).map Cell.slot = (second.cell? .table name).map Cell.slot

/-- A column that is replaced by one for the same leaves the slots. -/
theorem sameSlots_setCell {object : Object} {name : String} {cell changed : Cell}
    (held : object.cell? .table name = some cell) (slot : changed.slot = cell.slot) :
    (object.setCell .table name changed).SameSlots object := by
  intro other
  rw [cell?_setCell .table name other changed object (by rw [held]; rfl)]
  split
  · next same => rw [← same, held, Option.map_some, Option.map_some, slot]
  · rfl

namespace SameSlots

variable {first second third : Object} {name : String}

/-- Entities have the same slots in either order. -/
theorem symm (same : first.SameSlots second) : second.SameSlots first :=
  fun name => (same name).symm

/-- Where one of two entities with the same slots has a column, the other one has one for the
same. -/
theorem exists_cell (same : first.SameSlots second) {cell : Cell}
    (held : first.cell? .table name = some cell) :
    ∃ other, second.cell? .table name = some other ∧ other.slot = cell.slot := by
  have slots := same name
  rw [held, Option.map_some, eq_comm, Option.map_eq_some_iff] at slots
  exact slots

/-- Where one of two entities with the same slots has no column, the other one has none. -/
theorem cell?_eq_none (same : first.SameSlots second) (absent : first.cell? .table name = none) :
    second.cell? .table name = none := by
  have slots := same name
  rwa [absent, Option.map_none, eq_comm, Option.map_eq_none_iff] at slots

end SameSlots

end Object

/-- A column has a declared type when it is one for entities of the type. -/
theorem Cell.declared?_eq_some {cell : Cell} {declared : Declared} :
    cell.declared? = some declared ↔ cell.slot = .entity declared := by
  cases cell <;> simp [declared?, slot]

/-- Columns for the same have the same declared type. -/
theorem Cell.declared?_congr {first second : Cell} (slot : first.slot = second.slot) :
    first.declared? = second.declared? :=
  Option.ext fun declared => by rw [declared?_eq_some, declared?_eq_some, slot]

/-- Where there are columns for the same, the declared types are the same. -/
theorem Cell.bind_declared?_congr {first second : Option Cell}
    (slots : first.map Cell.slot = second.map Cell.slot) :
    first.bind Cell.declared? = second.bind Cell.declared? := by
  cases first <;> cases second <;> simp at slots ⊢
  exact declared?_congr slots

/-- A registry that makes no entity of a name misses its type. -/
theorem Registry.eq_missingType_of_create {registry : Registry} {name : String} {error : Error}
    (failed : registry.create name = .error error) : error = (Cause.missingType name).error := by
  rw [create, exceptMap_eq_error, factory] at failed
  cases found : find? registry name with
  | some made => simp [found] at failed
  | none =>
    simp only [found, Except.error.injEq] at failed
    exact failed.symm

namespace Hydrator

variable {hydrator : Hydrator} {build : String → Mapping → Except Error Object}
  {object next : Object} {key : String} {raw value : Value} {error : Error}

/-! ### One column -/

/-- In a column for an entity a value is assigned by nesting one. -/
theorem assignCell_of_declared? (build : String → Mapping → Except Error Object) (key : String)
    (value : Value) {cell : Cell} {declared : Declared} (holds : cell.declared? = some declared) :
    assignCell build key value cell = (nest build declared key value).map (.entity declared) := by
  cases cell <;> cases holds <;> rfl

/-- What is assigned to a column stands in one for the same. -/
theorem slot_of_assignCell {cell changed : Cell}
    (assigned : assignCell build key value cell = .ok changed) : changed.slot = cell.slot := by
  cases cell with
  | plain content =>
    obtain ⟨loaded, loading, rfl⟩ := exceptMap_eq_ok.mp assigned
    exact congrArg Slot.plain (Content.form_of_load loading)
  | entity declared _ | vacant declared =>
    obtain ⟨built, -, rfl⟩ := exceptMap_eq_ok.mp assigned
    rfl

/-! ### Why an entry is assigned, or not -/

/-- An entity is not built when its name makes none, when it cannot be assigned the values, or when
that stops. -/
theorem buildWith_eq_error {assign : Object → Mapping → Progress Object} {name : String}
    {values : Mapping} :
    hydrator.buildWith assign name values = .error error ↔
      hydrator.registry.create name = .error error ∨
        ∃ blank, hydrator.registry.create name = .ok blank ∧
          (blank.type.hydratable = false ∧ error = .refuse (.notHydratable name) ∨
            blank.type.hydratable = true ∧ (assign blank values).stopped = some error) := by
  cases made : hydrator.registry.create name with
  | error failure => simp [buildWith, made]
  | ok blank =>
    by_cases hydratable : blank.type.hydratable
    · simp [buildWith, made, hydratable, Progress.result_eq_error]
    · simp [buildWith, made, hydratable, @eq_comm _ error]

/-- An entity is not nested when the value is no map, when none is built, or when one of another
type is. -/
theorem nest_eq_error {declared : Declared} :
    nest build declared key value = .error error ↔
      value.asMap? = none ∧ error = .mismatch (.property key) "map" value.typeName ∨
        ∃ entries, value = .map entries ∧
          ((∃ failure, build declared.name entries = .error failure ∧
              error = failure.within key) ∨
            ∃ built, build declared.name entries = .ok built ∧
              built.type.ident ≠ declared.ident ∧
                error = .mismatch (.property key) declared.name built.type.name) := by
  cases value with
  | map entries =>
    cases made : build declared.name entries with
    | error failure => simp [nest, made, Value.asMap?, @eq_comm _ error]
    | ok built =>
      by_cases same : built.type.ident = declared.ident <;>
        simp [nest, made, Object.downcast, same, Value.asMap?, @eq_comm _ error]
  | _ => simp [nest, Value.asMap?, @eq_comm _ error]

/-- What a complete assignment of an entry leaves, and why. -/
inductive Completes (hydrator : Hydrator) (build : String → Mapping → Except Error Object)
    (object : Object) (key : String) (raw : Value) : Object → Prop where
  /-- Null is not assigned. -/
  | null {value : Value} (processed : hydrator.process key raw = .ok value)
    (null : value.isNull = true) : Completes hydrator build object key raw object
  /-- A key without a column is skipped. -/
  | skipped {value : Value} (processed : hydrator.process key raw = .ok value)
    (present : value.isNull = false) (absent : object.cell? .table key = none)
    (lenient : hydrator.settings.ignoreUnknown = true) :
    Completes hydrator build object key raw object
  /-- A value is assigned to its column. -/
  | assigned {value : Value} {cell changed : Cell}
    (processed : hydrator.process key raw = .ok value) (present : value.isNull = false)
    (held : object.cell? .table key = some cell)
    (assigned : assignCell build key value cell = .ok changed) :
    Completes hydrator build object key raw (object.setCell .table key changed)

/-- What stops the assignment of an entry, and why. -/
inductive Stops (hydrator : Hydrator) (build : String → Mapping → Except Error Object)
    (object : Object) (key : String) (raw : Value) : Error → Prop where
  /-- The processor refuses the value. -/
  | refused {error : Error} (processed : hydrator.process key raw = .error error) :
    Stops hydrator build object key raw error
  /-- A key has no column and is not skipped. -/
  | unknown {value : Value} (processed : hydrator.process key raw = .ok value)
    (present : value.isNull = false) (absent : object.cell? .table key = none)
    (strict : hydrator.settings.ignoreUnknown = false) :
    Stops hydrator build object key raw (.refuse (.unknownField key))
  /-- The content of a column does not take the value. -/
  | content {value : Value} {content : Content} {error : Error}
    (processed : hydrator.process key raw = .ok value) (present : value.isNull = false)
    (held : object.cell? .table key = some (.plain content))
    (failed : content.load key value = .error error) : Stops hydrator build object key raw error
  /-- No entity is nested in a column. -/
  | entity {value : Value} {cell : Cell} {declared : Declared} {error : Error}
    (processed : hydrator.process key raw = .ok value) (present : value.isNull = false)
    (held : object.cell? .table key = some cell) (holds : cell.declared? = some declared)
    (failed : nest build declared key value = .error error) :
    Stops hydrator build object key raw error

/-- An entry is assigned for one of the reasons. -/
theorem completes_iff :
    hydrator.assignEntry build object (key, raw) = .complete next ↔
      hydrator.Completes build object key raw next := by
  constructor
  · intro done
    simp only [assignEntry] at done
    cases processed : hydrator.process key raw with
    | error failure => simp [processed, Progress.stop, Progress.complete] at done
    | ok value =>
      simp only [processed, assignValue] at done
      split at done
      · next null =>
        cases done
        exact .null processed null
      · next present =>
        rw [Bool.not_eq_true] at present
        split at done
        · next absent =>
          split at done
          · next lenient =>
            cases done
            exact .skipped processed present absent lenient
          · simp [Progress.stop, Progress.complete] at done
        · next cell held =>
          rw [Progress.ofStep_eq_complete] at done
          cases assigned : assignCell build key value cell with
          | error failure => simp [assigned, Except.map] at done
          | ok changed =>
            rw [assigned] at done
            cases done
            exact .assigned processed present held assigned
  · intro reason
    cases reason with
    | null processed null => simp [assignEntry, processed, assignValue, null]
    | skipped processed present absent lenient =>
      simp [assignEntry, processed, assignValue, present, absent, lenient]
    | assigned processed present held assigned =>
      simp [assignEntry, processed, assignValue, present, held, assigned, Except.map,
        Progress.ofStep]

/-- An entry that is not assigned is so for one of the reasons. -/
theorem stops_of_stopped
    (stopped : (hydrator.assignEntry build object (key, raw)).stopped = some error) :
    hydrator.Stops build object key raw error := by
  simp only [assignEntry] at stopped
  cases processed : hydrator.process key raw with
  | error failure =>
    simp only [processed, Progress.stop, Option.some.injEq] at stopped
    exact .refused (stopped ▸ processed)
  | ok value =>
    simp only [processed, assignValue] at stopped
    split at stopped
    · cases stopped
    · next present =>
      rw [Bool.not_eq_true] at present
      split at stopped
      · next absent =>
        split at stopped
        · cases stopped
        · next strict =>
          rw [Bool.not_eq_true] at strict
          cases stopped
          exact .unknown processed present absent strict
      · next cell held =>
        rw [Progress.stopped_ofStep, exceptMap_eq_error] at stopped
        cases cell with
        | plain content => exact .content processed present held (exceptMap_eq_error.mp stopped)
        | entity declared _ | vacant declared =>
          exact .entity processed present held rfl (exceptMap_eq_error.mp stopped)

/-- A complete assignment of an entry leaves the slots. -/
theorem sameSlots_of_complete {entry : String × Value} {start : Object}
    (same : object.SameSlots start)
    (done : hydrator.assignEntry build object entry = .complete next) : next.SameSlots start := by
  cases completes_iff.mp done with
  | null _ _ | skipped _ _ _ _ => exact same
  | assigned _ _ held assigned =>
    exact fun name => (Object.sameSlots_setCell held (slot_of_assignCell assigned) name).trans
      (same name)

/-! ### Runs over a mapping -/

section Run

variable {values : Mapping}

/-- In a complete run every entry has been assigned where the slots were those at the start. -/
theorem entries_of_complete {final : Object}
    (done : Progress.each values (hydrator.assignEntry build) object = .complete final) :
    ∀ entry ∈ values, ∃ reached next, reached.SameSlots object ∧
      hydrator.assignEntry build reached entry = .complete next :=
  (Progress.holds_of_complete (fun state => state.SameSlots object)
    (fun _ _ _ _ => sameSlots_of_complete) (fun _ => rfl) done).2

/-- A run that stops does so at an entry where the slots are those at the start. -/
theorem entry_of_stopped
    (stopped : (Progress.each values (hydrator.assignEntry build) object).stopped = some error) :
    ∃ key raw, (key, raw) ∈ values ∧ ∃ reached : Object, reached.SameSlots object ∧
      hydrator.Stops build reached key raw error := by
  obtain ⟨⟨key, raw⟩, member, reached, same, failed⟩ := Progress.exists_stopped_of_holds
    (fun state => state.SameSlots object) (fun _ _ _ _ => sameSlots_of_complete) (fun _ => rfl)
    stopped
  exact ⟨key, raw, member, reached, same, stops_of_stopped failed⟩

/-- Runs come to the same when they assign entries alike wherever the slots are those at the start.
-/
theorem each_congr_of_sameSlots {other : Hydrator} {again : String → Mapping → Except Error Object}
    (agree : ∀ entry ∈ values, ∀ reached : Object, reached.SameSlots object →
      hydrator.assignEntry build reached entry = other.assignEntry again reached entry) :
    Progress.each values (hydrator.assignEntry build) object =
      Progress.each values (other.assignEntry again) object :=
  Progress.each_congr (fun state => state.SameSlots object)
    (fun _ _ _ _ => sameSlots_of_complete) agree fun _ => rfl

/-- A complete run is so with another hydrator that completes the same entries wherever the slots
are those at the start. -/
theorem complete_of_sameSlots {other : Hydrator} {again : String → Mapping → Except Error Object}
    (agree : ∀ key raw, (key, raw) ∈ values → ∀ reached next : Object, reached.SameSlots object →
      hydrator.Completes build reached key raw next → other.Completes again reached key raw next)
    {final : Object}
    (done : Progress.each values (hydrator.assignEntry build) object = .complete final) :
    Progress.each values (other.assignEntry again) object = .complete final := by
  refine (@Progress.each_eq_complete_of_steps _ _ _ _ _ (fun state => state.SameSlots object) ?_
    _ _ (fun _ => rfl) done).1
  rintro ⟨key, raw⟩ member reached next same stepped
  exact ⟨completes_iff.mpr (agree key raw member reached next same (completes_iff.mp stepped)),
    sameSlots_of_complete same stepped⟩

end Run

/-- When a map has been assigned to a column for entities, its entries have been assigned to the
entity that is made there. -/
theorem exists_built_of_complete {assign : Object → Mapping → Progress Object} {entries : Mapping}
    {cell : Cell} {declared : Declared} {blank : Object}
    (done : hydrator.assignEntry (hydrator.buildWith assign) object (key, raw) = .complete next)
    (processed : hydrator.process key raw = .ok (.map entries))
    (held : object.cell? .table key = some cell) (holds : cell.declared? = some declared)
    (created : hydrator.registry.create declared.name = .ok blank) :
    ∃ built, assign blank entries = .complete built := by
  cases completes_iff.mp done with
  | null again null =>
    cases processed.symm.trans again
    cases null
  | skipped _ _ absent _ => cases held.symm.trans absent
  | assigned again _ here assigned =>
    cases processed.symm.trans again
    cases held.symm.trans here
    rw [assignCell_of_declared? _ _ _ holds, exceptMap_eq_ok] at assigned
    obtain ⟨built, nested, -⟩ := assigned
    obtain ⟨_, same, made, -⟩ := nest_eq_ok.mp nested
    cases same
    obtain ⟨_, same, -, inside⟩ := buildWith_eq_ok.mp made
    cases created.symm.trans same
    exact ⟨built, inside⟩

/-- Where nothing is processed, the value of an entry is the one it has. -/
theorem process_of_unprocessed (unprocessed : hydrator.processors = []) (key : String)
    (raw : Value) : hydrator.process key raw = .ok raw := by
  rw [process, unprocessed]
  rfl

end Hydrator

end TypedRecord
