import TypedRecord.Proofs.Hydration
import TypedRecord.Proofs.RoundTrip

/-!
# Work column by column

Reading and assigning both go through names and change the column of each, or stop at a column that
cannot be changed. Neither looks at another column, so the order of the names decides only where the
work stops: it is complete exactly when every column that is named can be changed, and then each of
them holds what its change makes of what stood there at the start.
-/
namespace TypedRecord

open Entries

/-- What work on the columns of some names comes to. -/
structure Object.Alters (scope : Scope) (changes : String → Cell → Option Cell)
    (names : List String) (object : Object) (work : Progress Object) : Prop where
  /-- It is complete when every column of the names can be changed. -/
  completes : (∃ final, work = .complete final) ↔
    ∀ name ∈ names, ∀ cell, object.cell? scope name = some cell → (changes name cell).isSome
  /-- Then each of these columns is changed, and no other. -/
  leaves : ∀ final, work = .complete final → ∀ name, final.cell? scope name =
    if name ∈ names then (object.cell? scope name).bind (changes name)
    else object.cell? scope name
  /-- Nothing changes but columns. -/
  keeps : ∀ final, work = .complete final → ∀ {β : Type} (view : Object → β),
    (∀ scope object name cell, view (object.setCell scope name cell) = view object) →
      view final = view object

/-- What becomes of a column: what a change by the value that a mapping has under its name makes of
it, and the same where there is none. -/
def Mapping.changes (data : Mapping) (change : String → Value → Cell → Option Cell) (name : String)
    (cell : Cell) : Option Cell :=
  match data.present? name with
  | none => some cell
  | some value => change name value cell

/-- A mapping changes no column of a name that it does not have. -/
theorem Mapping.changes_of_notMem {data : Mapping} {name : String} (absent : name ∉ keys data)
    (change : String → Value → Cell → Option Cell) (cell : Cell) :
    data.changes change name cell = some cell := by
  have unnamed : find? data name = none := by
    rw [← Option.not_isSome_iff_eq_none, ← mem_keys_iff]
    exact absent
  rw [changes, present?_eq_bind, unnamed]
  rfl

namespace Object.Alters

variable {scope : Scope} {changes : String → Cell → Option Cell} {names : List String}
  {object : Object} {work : Progress Object}

/-! ### One column -/

/-- No work changes a column that its change leaves as it is. -/
theorem same {name : String}
    (unchanged : ∀ cell, object.cell? scope name = some cell → changes name cell = some cell) :
    Alters scope changes [name] object (.complete object) where
  completes := by
    refine ⟨fun _ other member cell held => ?_, fun _ => ⟨object, rfl⟩⟩
    rw [List.mem_singleton] at member
    subst member
    rw [unchanged cell held]
    rfl
  leaves final done other := by
    have final_eq : object = final := congrArg Progress.state done
    subst final_eq
    split
    · next member =>
      rw [List.mem_singleton] at member
      subst member
      cases held : object.cell? scope other with
      | none => rfl
      | some cell => exact (unchanged cell held).symm
    · rfl
  keeps final done β view _ := by rw [show object = final from congrArg Progress.state done]

/-- Work that replaces a column by what its change makes of it. -/
theorem replaced {name : String} {cell : Cell} (held : object.cell? scope name = some cell)
    (step : ∀ final, work = .complete final ↔
      ∃ changed, changes name cell = some changed ∧ final = object.setCell scope name changed) :
    Alters scope changes [name] object work where
  completes := by
    constructor
    · rintro ⟨final, done⟩ other member here found
      rw [List.mem_singleton] at member
      subst member
      obtain ⟨changed, changing, -⟩ := (step final).mp done
      rw [Option.some.inj (found.symm.trans held), changing]
      rfl
    · intro changeable
      obtain ⟨changed, changing⟩ :=
        Option.isSome_iff_exists.mp (changeable name List.mem_cons_self cell held)
      exact ⟨_, (step _).mpr ⟨changed, changing, rfl⟩⟩
  leaves final done other := by
    obtain ⟨changed, changing, rfl⟩ := (step final).mp done
    rw [cell?_setCell scope name other changed object (by rw [held]; rfl)]
    by_cases here : name = other
    · subst here
      rw [if_pos rfl, if_pos List.mem_cons_self, held, Option.bind_some, changing]
    · rw [if_neg here, if_neg fun member => here (List.mem_singleton.mp member).symm]
  keeps final done β view kept := by
    obtain ⟨changed, -, rfl⟩ := (step final).mp done
    exact kept scope object name changed

/-- Complete work on one column leaves every other one as it was. -/
theorem unchanged {name other : String} {final : Object}
    (alters : Alters scope changes [name] object work) (done : work = .complete final)
    (different : other ≠ name) : final.cell? scope other = object.cell? scope other := by
  rw [alters.leaves final done, if_neg fun single => different (List.mem_singleton.mp single)]

/-! ### Several columns -/

/-- Work on one column and further work on others come to work on them all. -/
theorem andThen {name : String} {next : Object → Progress Object} (fresh : name ∉ names)
    (first : Alters scope changes [name] object work)
    (later : ∀ middle, work = .complete middle → Alters scope changes names middle (next middle)) :
    Alters scope changes (name :: names) object (work.andThen next) where
  completes := by
    constructor
    · rintro ⟨final, done⟩
      obtain ⟨middle, started, finished⟩ := Progress.andThen_eq_complete.mp done
      refine List.forall_mem_cons.mpr
        ⟨first.completes.mp ⟨middle, started⟩ name List.mem_cons_self, ?_⟩
      intro other member cell held
      have different : other ≠ name := fun same => fresh (same ▸ member)
      refine (later middle started).completes.mp ⟨final, finished⟩ other member cell ?_
      rw [first.unchanged started different, held]
    · intro changeable
      obtain ⟨head, rest⟩ := List.forall_mem_cons.mp changeable
      obtain ⟨middle, started⟩ := first.completes.mpr fun other member =>
        List.mem_singleton.mp member ▸ head
      have finishable := (later middle started).completes.mpr fun other member cell held => by
        have different : other ≠ name := fun same => fresh (same ▸ member)
        rw [first.unchanged started different] at held
        exact rest other member cell held
      obtain ⟨final, finished⟩ := finishable
      exact ⟨final, Progress.andThen_eq_complete.mpr ⟨middle, started, finished⟩⟩
  leaves final done other := by
    obtain ⟨middle, started, finished⟩ := Progress.andThen_eq_complete.mp done
    rw [(later middle started).leaves final finished, first.leaves middle started]
    by_cases here : other = name
    · subst here
      rw [if_neg fresh, if_pos List.mem_cons_self, if_pos List.mem_cons_self]
    · simp [here]
  keeps final done β view kept := by
    obtain ⟨middle, started, finished⟩ := Progress.andThen_eq_complete.mp done
    rw [(later middle started).keeps final finished view kept,
      first.keeps middle started view kept]

/-- Work that goes through items changes the columns of their keys when every step changes its own
column, in any state where that column is as it was at the start. -/
theorem each {ι : Type} {key : ι → String} {items : List ι} (distinct : (items.map key).Nodup)
    {step : Object → ι → Progress Object}
    (stepped : ∀ item ∈ items, ∀ state : Object,
      state.cell? scope (key item) = object.cell? scope (key item) →
        Alters scope changes [key item] state (step state item)) :
    Alters scope changes (items.map key) object (Progress.each items step object) := by
  suffices run : ∀ state : Object,
      (∀ item ∈ items, state.cell? scope (key item) = object.cell? scope (key item)) →
        Alters scope changes (items.map key) state (Progress.each items step state) from
    run object fun _ _ => rfl
  induction items with
  | nil =>
    intro state _
    refine ⟨⟨fun _ => by simp, fun _ => ⟨state, rfl⟩⟩, ?_, ?_⟩
    · rintro final done name
      rw [show state = final from congrArg Progress.state done]
      simp
    · rintro final done β view -
      rw [show state = final from congrArg Progress.state done]
  | cons item rest ih =>
    intro state unseen
    obtain ⟨fresh, restDistinct⟩ := List.nodup_cons.mp distinct
    obtain ⟨here, later⟩ := List.forall_mem_cons.mp stepped
    have first := here state (unseen item List.mem_cons_self)
    refine first.andThen fresh fun middle started => ih restDistinct later middle ?_
    -- The columns of the later keys are still as they were at the start.
    intro other member
    have different : key other ≠ key item := fun same =>
      fresh (List.mem_map.mpr ⟨other, member, same⟩)
    rw [first.unchanged started different]
    exact unseen other (List.mem_cons_of_mem _ member)

end Object.Alters

/-! ### Every column -/

/-- What work on every column of the table comes to. -/
structure Object.AltersAll (changes : String → Cell → Option Cell) (object : Object)
    (work : Progress Object) : Prop where
  /-- It is complete when every column can be changed. -/
  completes : (∃ final, work = .complete final) ↔
    ∀ name cell, object.cell? .table name = some cell → (changes name cell).isSome
  /-- Then every column is changed. -/
  leaves : ∀ final, work = .complete final → ∀ name,
    final.cell? .table name = (object.cell? .table name).bind (changes name)
  /-- Nothing changes but columns. -/
  keeps : ∀ final, work = .complete final → ∀ {β : Type} (view : Object → β),
    (∀ scope object name cell, view (object.setCell scope name cell) = view object) →
      view final = view object

/-- Work on the columns of some names is work on every column, where the changes leave all other
columns as they are. -/
theorem Object.Alters.everywhere {changes : String → Cell → Option Cell} {names : List String}
    {object : Object} {work : Progress Object} (alters : Alters .table changes names object work)
    (elsewhere : ∀ name, name ∉ names → ∀ cell, object.cell? .table name = some cell →
      changes name cell = some cell) : AltersAll changes object work where
  completes := by
    rw [alters.completes]
    constructor
    · intro changeable name cell held
      by_cases member : name ∈ names
      · exact changeable name member cell held
      · rw [elsewhere name member cell held]
        rfl
    · exact fun changeable name _ => changeable name
  leaves final done name := by
    rw [alters.leaves final done]
    split
    · rfl
    · next absent =>
      cases held : object.cell? .table name with
      | none => rfl
      | some cell => rw [Option.bind_some, elsewhere name absent cell held]
  keeps := alters.keeps

/-! ### Reading -/

/-- What a column holds once a value is read at its name, where it holds something. -/
def Cell.read? (name : String) (value : Value) : Cell → Option Cell
  | .plain content => (content.load name value).toOption.map .plain
  | .entity declared nested => match value with
    | .map entries => (nested.read entries).final?.map (.entity declared)
    | _ => none
  | .vacant _ => none

namespace Object

variable {name : String} {object : Object}

/-- Only a mapping is read into an entity. -/
theorem readValue_entity_eq_complete {declared : Declared} {nested final : Object}
    (held : object.cell? .wire name = some (.entity declared nested)) {value : Value}
    (present : value.isNull = false) :
    readValue name object value = .complete final ↔
      ∃ changed, Cell.read? name value (.entity declared nested) = some changed ∧
        final = object.setCell .wire name changed := by
  cases value with
  | null => simp [Value.isNull] at present
  | map entries =>
    rw [readValue_entity held, Progress.map_eq_complete]
    simp only [Progress.within_eq_complete, Cell.read?, Option.map_eq_some_iff,
      Progress.final?_eq_some]
    constructor
    · rintro ⟨inner, done, rfl⟩
      exact ⟨_, ⟨inner, done, rfl⟩, rfl⟩
    · rintro ⟨_, ⟨inner, done, rfl⟩, rfl⟩
      exact ⟨inner, done, rfl⟩
  | _ => simp [readValue, held, Cell.read?, Progress.stop, Progress.complete]

/-- A value is read into plain content when it loads. -/
theorem readValue_plain_eq_complete {content : Content} {final : Object}
    (held : object.cell? .wire name = some (.plain content)) {value : Value}
    (present : value.isNull = false) :
    readValue name object value = .complete final ↔
      ∃ changed, Cell.read? name value (.plain content) = some changed ∧
        final = object.setCell .wire name changed := by
  rw [readValue_plain held present, load, Progress.ofStep_eq_complete, Cell.read?]
  cases content.load name value with
  | ok loaded => simp [Except.map, Except.toOption, eq_comm]
  | error error => simp [Except.map, Except.toOption]

/-- Reading the entry of a property changes its column. -/
theorem alters_readEntry (data : Mapping)
    (occupied : ∀ declared, object.cell? .wire name ≠ some (.vacant declared)) :
    Alters .wire (data.changes Cell.read?) [name] object (readEntry name object data) := by
  rw [readEntry_eq]
  cases found : find? data name with
  | none =>
    refine Alters.same fun cell _ => ?_
    rw [Mapping.changes, Mapping.present?_eq_bind, found, Option.bind_none]
  | some value =>
    have present := Mapping.present?_of_find? found
    by_cases null : value.isNull
    · have nothing : value = .null := by
        cases value with
        | null => rfl
        | _ => simp [Value.isNull] at null
      subst nothing
      simp only [readValue]
      refine Alters.same fun cell _ => ?_
      rw [Mapping.changes, present, if_pos null]
    · rw [if_neg null] at present
      rw [Bool.not_eq_true] at null
      have changes : ∀ cell, data.changes Cell.read? name cell = Cell.read? name value cell :=
        fun cell => by rw [Mapping.changes, present]
      cases held : object.cell? .wire name with
      | none =>
        simp only [readValue_of_eq_none held]
        exact Alters.same fun cell found => by simp [held] at found
      | some cell =>
        refine Alters.replaced held fun final => ?_
        rw [changes]
        cases cell with
        | plain content => exact readValue_plain_eq_complete held null
        | entity declared nested => exact readValue_entity_eq_complete held null
        | vacant declared => exact absurd held (occupied declared)

/-- Reading changes the columns of the properties. -/
theorem alters_read (data : Mapping) (distinct : object.type.properties.Nodup)
    (occupied : ∀ name ∈ object.type.properties, ∀ declared,
      object.cell? .wire name ≠ some (.vacant declared)) :
    Alters .wire (data.changes Cell.read?) object.type.properties object (object.read data) := by
  have run := @Alters.each .wire (data.changes Cell.read?) object String id object.type.properties
    (by rwa [List.map_id]) (fun state property => readEntry property state data)
    fun name member state same =>
      alters_readEntry data fun declared vacant => occupied name member declared (same ▸ vacant)
  rwa [List.map_id] at run

/-- Reading an entity and assigning to it go through the same columns. -/
structure Aligned (object : Object) : Prop where
  /-- Fields can be assigned. -/
  hydratable : object.type.hydratable = true
  /-- Properties can be read. -/
  travels : object.type.traversal.isSome = true
  /-- Every property is read once. -/
  distinct : object.type.properties.Nodup
  /-- The properties are the names of the table. -/
  listed : ∀ name, name ∈ object.type.properties ↔ name ∈ object.names
  /-- A property is read into the column that the table has under its name. -/
  tabled : ∀ name ∈ object.names, object.isTabled name = true
  /-- No entity is missing. -/
  occupied : ∀ name declared, object.cell? .table name ≠ some (.vacant declared)

/-- Reading an aligned entity changes the columns of its table. -/
theorem altersAll_read (aligned : object.Aligned) (data : Mapping) :
    AltersAll (data.changes Cell.read?) object (object.read data) := by
  have sameColumn : ∀ name ∈ object.type.properties,
      object.cell? .wire name = object.cell? .table name := fun name member =>
    (cell?_of_isTabled name object (aligned.tabled name ((aligned.listed name).mp member))).1
  have wire := alters_read data aligned.distinct fun name member declared =>
    sameColumn name member ▸ aligned.occupied name declared
  have absent : ∀ name, name ∉ object.type.properties → object.cell? .table name = none := by
    intro name unlisted
    rwa [aligned.listed, mem_names_iff, Option.not_isSome_iff_eq_none] at unlisted
  have table : Alters .table (data.changes Cell.read?) object.type.properties object
      (object.read data) := by
    refine ⟨?_, fun final done name => ?_, wire.keeps⟩
    · rw [wire.completes]
      exact forall₂_congr fun name member => by rw [sameColumn name member]
    · by_cases member : name ∈ object.type.properties
      · have isTabled : final.isTabled name = true := by
          rw [wire.keeps final done (isTabled name) fun scope state other cell =>
            isTabled_setCell scope other name cell state]
          exact aligned.tabled name ((aligned.listed name).mp member)
        rw [← (cell?_of_isTabled name final isTabled).1, wire.leaves final done name,
          sameColumn name member]
      · have names : final.names = object.names := wire.keeps final done names
          fun scope state name cell => names_setCell scope name cell state
        rw [if_neg member, absent name member, ← Option.not_isSome_iff_eq_none, ← mem_names_iff,
          names, mem_names_iff, absent name member]
        exact Bool.false_ne_true
  refine table.everywhere fun name unlisted cell held => ?_
  rw [absent name unlisted] at held
  exact absurd held nofun

end Object

/-! ### Assigning -/

namespace Hydrator

variable {hydrator : Hydrator} {build : String → Mapping → Except Error Object}

/-- What a column holds once a value is assigned to it, built by `build`. -/
def assignCell? (build : String → Mapping → Except Error Object) (name : String) (value : Value)
    (cell : Cell) : Option Cell :=
  (assignCell build name value cell).toOption

/-- Assigning an entry changes its column, where nothing is processed and the key is known or
ignored. -/
theorem alters_assignEntry (unprocessed : hydrator.processors = []) {data : Mapping} {key : String}
    {value : Value} (found : find? data key = some value) {object : Object}
    (taken : hydrator.settings.ignoreUnknown = true ∨ (object.cell? .table key).isSome) :
    Object.Alters .table (data.changes (assignCell? build)) [key] object
      (hydrator.assignEntry build object (key, value)) := by
  have present := Mapping.present?_of_find? found
  have processed : hydrator.process key value = .ok value := by
    rw [process, unprocessed]
    rfl
  simp only [assignEntry, processed, assignValue]
  by_cases null : value.isNull
  · rw [if_pos null]
    refine Object.Alters.same fun cell _ => ?_
    rw [Mapping.changes, present, if_pos null]
  · rw [if_neg null] at present ⊢
    cases held : object.cell? .table key with
    | none =>
      have lenient : hydrator.settings.ignoreUnknown = true :=
        taken.resolve_right (by simp [held])
      simp only [lenient, ↓reduceIte]
      exact Object.Alters.same fun cell found => by simp [held] at found
    | some cell =>
      refine Object.Alters.replaced held fun final => ?_
      rw [Progress.ofStep_eq_complete, Mapping.changes, present]
      cases assigned : assignCell build key value cell with
      | ok changed => simp [assignCell?, assigned, Except.map, Except.toOption, eq_comm]
      | error error => simp [assignCell?, assigned, Except.map, Except.toOption]

/-- Assigning changes every column, where nothing is processed and every key is known or ignored. -/
theorem altersAll_assign (unprocessed : hydrator.processors = []) {data : Mapping}
    (sorted : Sorted data) (levels : Nat) {object : Object}
    (taken : hydrator.settings.ignoreUnknown = true ∨
      ∀ key ∈ keys data, (object.cell? .table key).isSome) :
    Object.AltersAll (data.changes (assignCell? (hydrator.buildWith (hydrator.assign levels))))
      object (hydrator.assign (levels + 1) object data) := by
  have alters : Object.Alters .table
      (data.changes (assignCell? (hydrator.buildWith (hydrator.assign levels)))) (keys data) object
      (hydrator.assign (levels + 1) object data) :=
    Object.Alters.each sorted.nodup_keys fun entry member state same =>
      alters_assignEntry unprocessed (sorted.find?_of_mem member)
        (taken.imp_right fun known => same ▸ known entry.1 (List.mem_map_of_mem member))
  exact alters.everywhere fun name absent cell _ => Mapping.changes_of_notMem absent _ cell

end Hydrator

end TypedRecord
