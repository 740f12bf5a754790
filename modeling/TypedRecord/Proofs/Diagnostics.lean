import TypedRecord.Proofs.Paths
import TypedRecord.Proofs.Protection
import TypedRecord.Proofs.Readings

/-!
# Mismatches name their culprit

An entity is read from a mapping or assigned from it, and a value that does not fit stops the work.
The error comes back through the entities on the way, which each put a name before its path, while
the column that refused the value has told the item or the key. Main statement: the path of a
mismatch leads through the maps of the mapping to the one where the culprit is, and the culprit is
there, of the type that is named, and refused by the column for a value of the type that is
expected.
-/
namespace TypedRecord

open Entries

namespace View

variable {view : View} {object : Object} {data : Mapping} {path : List String} {error : Error}

/-- An error blames a value in a mapping when its path leads to the map that has the value, and it
says why the column at the end of the path refuses the value. -/
inductive Blames (view : View) (object : Object) (data : Mapping) (path : List String) :
    Error → Prop where
  /-- The value is present in the map at the end of the path, and the column of its name refuses it.
  -/
  | mk {inner : Mapping} {name : String} {value : Value} {cell : Cell} {place : Place}
    {expected found : String} (reached : (Value.map data).follow? path = some (.map inner))
    (present : inner.present? name = some value)
    (held : view.column? object path name = some cell)
    (refuses : cell.slot.Refuses name value place expected found) :
    Blames view object data path ⟨path.map .field, .mismatch place expected found⟩

namespace Blames

/-- A value of the mapping itself is blamed without a path. -/
theorem here {name : String} {value : Value} {cell : Cell} {place : Place}
    {expected found : String} (present : data.present? name = some value)
    (held : view.cell? object name = some cell)
    (refuses : cell.slot.Refuses name value place expected found) :
    view.Blames object data [] (.mismatch place expected found) :=
  .mk rfl present held refuses

/-- What is blamed in a map is blamed in the mapping below the name of the map. -/
theorem within {name : String} {entries : Mapping} {cell : Cell} {inner : Object}
    (present : data.present? name = some (.map entries)) (held : view.cell? object name = some cell)
    (inside : view.inner? object cell = some inner)
    (blames : view.Blames inner entries path error) :
    view.Blames object data (name :: path) (error.within name) := by
  obtain ⟨reached, presentThere, heldThere, refuses⟩ := blames
  refine .mk ?_ presentThere ?_ refuses
  · rw [Value.follow?_map_cons, data.find?_of_present? present]
    exact reached
  · rw [column?_cons_of_inner? held inside]
    exact heldThere

/-- What is blamed is blamed for any entity with the same columns. -/
theorem congr {other : Object} (same : view.SameColumns object other)
    (blames : view.Blames object data path error) : view.Blames other data path error := by
  obtain ⟨reached, present, held, refuses⟩ := blames
  obtain ⟨cell, heldToo, slot⟩ := same.exists_cell held
  exact .mk reached present heldToo (slot ▸ refuses)

/-- What is blamed in a part of an ordered mapping is blamed in the mapping. -/
theorem of_sublist {part : Mapping} (ordered : data.Ordered) (among : part.Sublist data)
    (blames : view.Blames object part path error) : view.Blames object data path error := by
  have found : ∀ {name value}, find? part name = some value → find? data name = some value :=
    fun held => ordered.1.find?_of_mem (among.subset (mem_of_find? held))
  obtain ⟨reached, present, held, refuses⟩ := blames
  cases path with
  | nil =>
    cases reached
    refine .mk rfl ?_ held refuses
    rw [Mapping.present?_of_find? (found (part.find?_of_present? present)),
      part.isNull_of_present? present]
    rfl
  | cons first rest =>
    refine .mk ?_ present held refuses
    rw [Value.follow?_map_cons, Option.bind_eq_some_iff] at reached ⊢
    obtain ⟨value, held, later⟩ := reached
    exact ⟨value, found held, later⟩

end Blames

/-! ### The text of a path -/

/-- No name starts with a bracket, which would be taken for an index. -/
def Unbracketed (view : View) : Object → Prop :=
  view.Everywhere fun name _ => name.toList.head? ≠ some '['

/-- The names of a path to a column do not start with a bracket. -/
theorem Unbracketed.segments (unbracketed : view.Unbracketed object) {name : String} {cell : Cell}
    (found : view.column? object path name = some cell) :
    ∀ segment ∈ path, segment.toList.head? ≠ some '[' := by
  induction path generalizing object with
  | nil => exact nofun
  | cons first rest ih =>
    rw [column?_cons, Option.bind_eq_some_iff] at found
    obtain ⟨inner, reached, later⟩ := found
    obtain ⟨here, held, inside⟩ := Option.bind_eq_some_iff.mp reached
    exact List.forall_mem_cons.mpr ⟨unbracketed.here held, ih (unbracketed.below held inside) later⟩

end View

/-- Names with dots between them do not start with a bracket when the first one does not. -/
theorem head?_intercalate_ne {first : String} (unbracketed : first.toList.head? ≠ some '[')
    (rest : List String) : (".".intercalate (first :: rest)).toList.head? ≠ some '[' := by
  cases rest with
  | nil => rwa [String.intercalate_singleton]
  | cons second rest =>
    rw [String.intercalate_cons_cons, String.toList_append, String.toList_append]
    cases letters : first.toList with
    | nil => simp
    | cons letter others =>
      rw [letters] at unbracketed
      simpa using unbracketed

/-- A path of names that do not start with a bracket is written with dots between them. -/
theorem Segment.pathText_field (first : String) {rest : List String}
    (unbracketed : ∀ name ∈ rest, name.toList.head? ≠ some '[') :
    (Segment.field first).pathText (rest.map .field) = ".".intercalate (first :: rest) := by
  induction rest generalizing first with
  | nil => rw [List.map_nil, pathText, text, String.intercalate_singleton]
  | cons second rest ih =>
    obtain ⟨here, later⟩ := List.forall_mem_cons.mp unbracketed
    rw [List.map_cons, pathText, ih second later, if_neg (head?_intercalate_ne here rest), text,
      String.intercalate_cons_cons]

/-- The path of an error that blames a value is written with dots between the names. -/
theorem View.Blames.pathText? {view : View} {object : Object} {data : Mapping} {path : List String}
    {error : Error} (unbracketed : view.Unbracketed object)
    (blames : view.Blames object data path error) :
    error.pathText? = if path = [] then none else some (".".intercalate path) := by
  obtain ⟨-, -, held, -⟩ := blames
  cases path with
  | nil => rfl
  | cons first rest =>
    have names := unbracketed.segments held
    rw [if_neg (List.cons_ne_nil _ _), Error.pathText?]
    exact congrArg some (Segment.pathText_field first (List.forall_mem_cons.mp names).2)

/-! ### Reading -/

/-- A column for an entity refuses what is no map. -/
theorem Cell.refuses_of_declared? {cell : Cell} {declared : Declared}
    (holds : cell.declared? = some declared) {value : Value} (unmapped : value.asMap? = none)
    (name : String) :
    cell.slot.Refuses name value (.property name) "map" value.typeName := by
  rw [declared?_eq_some.mp holds]
  exact .entity unmapped

/-- Reading a filled entity stops only with an error that blames a value. -/
theorem Object.exists_blames_of_read {object : Object} {data : Mapping} {error : Error}
    (filled : object.Filled) (stopped : (object.read data).stopped = some error) :
    ∃ path, View.reading.Blames object data path error := by
  induction data using Mapping.induction generalizing object error with
  | step data ih =>
    obtain ⟨name, member, reached, kept, stops⟩ := property_of_stopped filled stopped
    have shown : View.reading.cell? reached name = reached.cell? .wire name :=
      View.cell?_reading (kept.type_eq ▸ member)
    cases stops with
    | content present held failed =>
      obtain ⟨_, _, _, rfl, refuses⟩ := Content.refuses_of_load failed
      exact ⟨[], .congr kept.columns (.here present (shown.trans held) refuses)⟩
    | unmapped present held holds unmapped =>
      have refuses := Cell.refuses_of_declared? holds unmapped name
      exact ⟨[], .congr kept.columns (.here present (shown.trans held) refuses)⟩
    | @nested entries cell declared nested failure present held inside failed =>
      have leads : View.reading.inner? reached cell = some nested :=
        congrArg (Option.map Prod.snd) inside
      have filledToo := kept.filled.below (shown.trans held) leads
      obtain ⟨path, blames⟩ := ih name entries present filledToo failed
      exact ⟨name :: path,
        .congr kept.columns (.within present (shown.trans held) leads blames)⟩

/-! ### Assigning -/

/-- A registry is faithful to an entity when what it makes for a column is of the type that is
declared there, in it and in the entities that are made. -/
def Registry.Faithful (registry : Registry) : Object → Prop :=
  (View.building registry).Everywhere fun _ cell => ∀ declared blank,
    cell.declared? = some declared → registry.create declared.name = .ok blank →
      blank.type.ident = declared.ident

/-- A registry is faithful to entities with the same columns. -/
theorem Registry.Faithful.congr {registry : Registry} {object other : Object}
    (faithful : registry.Faithful object)
    (same : (View.building registry).SameColumns other object) : registry.Faithful other := by
  intro path name cell held declared blank holds created
  obtain ⟨cell, heldToo, slot⟩ := same.exists_cell held
  rw [Cell.declared?_congr slot.symm] at holds
  exact faithful path name cell heldToo declared blank holds created

namespace Hydrator

variable {hydrator : Hydrator} {object : Object} {values : Mapping} {levels : Nat} {error : Error}

/-- Where nothing is processed, assigning stops with a mismatch only if it blames a value. -/
theorem exists_blames_of_assign (unprocessed : hydrator.processors = [])
    (faithful : hydrator.registry.Faithful object) (ordered : values.Ordered)
    (stopped : (hydrator.assign levels object values).stopped = some error)
    (kind : error.kind = .typeMismatch) :
    ∃ path, (View.building hydrator.registry).Blames object values path error := by
  induction levels generalizing object values error with
  | zero =>
    cases stopped
    cases kind
  | succ levels ih =>
    obtain ⟨name, raw, member, reached, same, stops⟩ := entry_of_stopped stopped
    have processing := process_of_unprocessed unprocessed name raw
    have columns : (View.building hydrator.registry).SameColumns reached object :=
      View.sameColumns_of_sameSlots same
    have found := ordered.1.find?_of_mem member
    have present : raw.isNull = false → values.present? name = some raw := fun notNull => by
      rw [Mapping.present?_of_find? found, notNull]
      rfl
    cases stops with
    | refused processed => cases processing.symm.trans processed
    | unknown => cases kind
    | content processed notNull held failed =>
      cases processing.symm.trans processed
      obtain ⟨_, _, _, rfl, refuses⟩ := Content.refuses_of_load failed
      exact ⟨[], .congr columns (.here (present notNull) held refuses)⟩
    | @entity value cell declared failure processed notNull held holds failed =>
      cases processing.symm.trans processed
      obtain ⟨unmapped, rfl⟩ | ⟨entries, rfl, ⟨failure, made, rfl⟩ | ⟨built, made, other, rfl⟩⟩ :=
        nest_eq_error.mp failed
      · have refuses := Cell.refuses_of_declared? holds unmapped name
        exact ⟨[], .congr columns (.here (present notNull) held refuses)⟩
      · obtain missing | ⟨blank, created, ⟨-, rfl⟩ | ⟨-, inside⟩⟩ := buildWith_eq_error.mp made
        · cases Registry.eq_missingType_of_create missing
          cases kind
        · cases kind
        · have leads : (View.building hydrator.registry).inner? reached cell = some blank := by
            simp only [View.building, holds, Option.bind_some, created]
            rfl
          obtain ⟨path, blames⟩ := ih ((faithful.congr columns).below held leads)
            (ordered.sorted_of_find? found) inside kind
          exact ⟨name :: path, .congr columns (.within (present notNull) held leads blames)⟩
      · -- what was built is of the type of the blank entity, which is the declared one
        obtain ⟨blank, created, -, done⟩ := buildWith_eq_ok.mp made
        have ident := (faithful.congr columns).here held declared blank holds created
        rw [← type_of_assign done] at ident
        exact absurd ident other

end Hydrator

/-! ### Both ways -/

/-- An error pinpoints a value when it blames the value at the end of a path, and its own path is
written with dots between the names. -/
def View.Pinpoints (view : View) (object : Object) (data : Mapping) (error : Error) : Prop :=
  ∃ path, view.Blames object data path error ∧
    error.pathText? = if path = [] then none else some (".".intercalate path)

/-- A mismatch pinpoints the value that does not fit, whether a filled entity is read from a mapping
or a hydrator that renames and processes nothing, over a faithful registry, assigns the mapping to
an entity in any way or makes a new one from it. -/
theorem pinpoints_of_mismatch {data : Mapping} (ordered : data.Ordered) :
    (∀ object : Object, object.Filled → View.reading.Unbracketed object → ∀ error,
      (object.read data).stopped = some error → error.kind = .typeMismatch →
        View.reading.Pinpoints object data error) ∧
    ∀ hydrator : Hydrator, hydrator.rules = [] → hydrator.processors = [] →
      (∀ object, hydrator.registry.Faithful object →
        (View.building hydrator.registry).Unbracketed object →
          ∀ work ∈ [hydrator.hydrate object data, hydrator.setFields object data,
            hydrator.setValues object data], ∀ error, work.stopped = some error →
              error.kind = .typeMismatch →
                (View.building hydrator.registry).Pinpoints object data error) ∧
      ∀ name blank, hydrator.registry.create name = .ok blank → hydrator.registry.Faithful blank →
        (View.building hydrator.registry).Unbracketed blank → ∀ error,
          hydrator.create name data = .error error → error.kind = .typeMismatch →
            (View.building hydrator.registry).Pinpoints blank data error := by
  refine ⟨fun object filled unbracketed error stopped _ => ?_,
    fun hydrator unruled unprocessed => ?_⟩
  · obtain ⟨path, blames⟩ := Object.exists_blames_of_read filled stopped
    exact ⟨path, blames, blames.pathText? unbracketed⟩
  · have renamed : ∀ values, hydrator.rename values = values := by
      intro values
      rw [Hydrator.rename, unruled]
      rfl
    -- an update is assigned from a part of the mapping, the others from the whole
    have assigned : ∀ object, hydrator.registry.Faithful object →
        (View.building hydrator.registry).Unbracketed object → ∀ part : Mapping,
          part.Sublist data → ∀ error,
            (hydrator.assign hydrator.levels object part).stopped = some error →
              error.kind = .typeMismatch →
                (View.building hydrator.registry).Pinpoints object data error := by
      intro object faithful unbracketed part within error stopped kind
      obtain ⟨path, blames⟩ := Hydrator.exists_blames_of_assign unprocessed faithful
        (ordered.sublist within) stopped kind
      exact ⟨path, blames.of_sublist ordered within, blames.pathText? unbracketed⟩
    constructor
    · intro object faithful unbracketed
      simp only [List.forall_mem_cons, List.not_mem_nil, false_implies, implies_true, and_true,
        Hydrator.setValues, Hydrator.setFields, Hydrator.hydrate, Progress.stopped_allOrNothing,
        renamed]
      have whole := assigned object faithful unbracketed data (List.Sublist.refl data)
      exact ⟨whole, whole, assigned object faithful unbracketed _
        (hydrator.unprotected_sublist data)⟩
    · intro name blank created faithful unbracketed error failed kind
      rw [Hydrator.create, renamed] at failed
      obtain missing | ⟨other, again, ⟨-, rfl⟩ | ⟨-, stopped⟩⟩ :=
        Hydrator.buildWith_eq_error.mp failed
      · cases created.symm.trans missing
      · cases kind
      · cases created.symm.trans again
        exact assigned blank faithful unbracketed data (List.Sublist.refl data) error stopped kind

/-- An office by the codes that it is listed under. -/
def office (codes : List String) : Object :=
  .mk ⟨"Office", "Office", true, some ["Codes"], none, false⟩
    [("Codes", .plain (.array .text codes))] [] []

/-- A letter by the office that sends it. -/
def letter (sender : Object) : Object :=
  .mk ⟨"Letter", "Letter", true, some ["Sender"], none, false⟩
    [("Sender", .entity ⟨"Office", "Office", .value⟩ sender)] [] []

/-- A hydrator for letters. -/
def mailing : Hydrator :=
  .ofRegistry [("Office", ⟨office [], false⟩), ("Letter", ⟨letter (office []), false⟩)]

/-- The only column of an office. -/
theorem cell?_office (scope : Scope) (codes : List String) (key : String) :
    (office codes).cell? scope key =
      if "Codes" = key then some (.plain (.array .text codes)) else none := by
  cases scope <;> simp [office, Object.cell?, Object.mixedCell?, Scope.reveal, find?]

/-- The only column of a letter. -/
theorem cell?_letter (scope : Scope) (sender : Object) (key : String) :
    (letter sender).cell? scope key =
      if "Sender" = key then some (.entity ⟨"Office", "Office", .value⟩ sender) else none := by
  cases scope <;> simp [letter, Object.cell?, Object.mixedCell?, Scope.reveal, find?]

/-- What is so of the column of a new letter and of that of its sender is so everywhere, in any view
that finds their columns and leads from the one to the other. -/
theorem everywhere_letter {view : View} {good : String → Cell → Prop} (scope : Scope)
    (cells : ∀ object name cell, view.cell? object name = some cell →
      object.cell? scope name = some cell)
    (leads : ∀ object inner cell, view.inner? object cell = some inner →
      cell = .entity ⟨"Office", "Office", .value⟩ (office []) → inner = office [])
    (ends : ∀ object content, view.inner? object (.plain content) = none)
    (sender : good "Sender" (.entity ⟨"Office", "Office", .value⟩ (office [])))
    (codes : good "Codes" (.plain (.array .text []))) :
    view.Everywhere good (letter (office [])) := by
  refine .of_cells fun name cell held => ?_
  have own := cells _ _ _ held
  rw [cell?_letter] at own
  split at own
  · next here =>
    cases own
    refine ⟨here ▸ sender, fun inner inside => ?_⟩
    rw [leads _ _ _ inside rfl]
    refine .of_cells fun key there found => ?_
    have below := cells _ _ _ found
    rw [cell?_office] at below
    split at below
    · next here =>
      cases below
      refine ⟨here ▸ codes, fun _ nowhere => ?_⟩
      rw [ends] at nowhere
      cases nowhere
    · cases below
  · cases own

/-- What a letter cannot be made from: the second code of the sender is no text. -/
def misprinted : Mapping := [("Sender", .map [("Codes", .list [.text "one", .int 2])])]

/-- What is wrong with it. -/
def misprint : Error := (Error.mismatch (.item "Codes" 1) "text" "int").within "Sender"

/-- Reading a letter and making one stop at the second code of the sender, and say so. -/
theorem pinpoints_of_mismatch_letter :
    ((letter (office [])).read misprinted).stopped = some misprint ∧
      View.reading.Pinpoints (letter (office [])) misprinted misprint ∧
      mailing.create "Letter" misprinted = .error misprint ∧
      (View.building mailing.registry).Pinpoints (letter (office [])) misprinted misprint := by
  have ordered : misprinted.Ordered :=
    ⟨by decide, ⟨⟨by decide, ⟨trivial, trivial, trivial⟩, trivial⟩, trivial⟩⟩
  have reads : ∀ {good : String → Cell → Prop},
      good "Sender" (.entity ⟨"Office", "Office", .value⟩ (office [])) →
        good "Codes" (.plain (.array .text [])) →
          View.reading.Everywhere good (letter (office [])) := by
    refine everywhere_letter .wire (fun object name cell held => ?_) ?_ fun _ _ => rfl
    · simp only [View.reading] at held
      split at held
      · exact held
      · cases held
    · rintro object inner cell inside rfl
      exact (Option.some.inj inside).symm
  have builds : ∀ {good : String → Cell → Prop},
      good "Sender" (.entity ⟨"Office", "Office", .value⟩ (office [])) →
        good "Codes" (.plain (.array .text [])) →
          (View.building mailing.registry).Everywhere good (letter (office [])) := by
    refine everywhere_letter .table (fun object name cell held => held) ?_ fun _ _ => rfl
    rintro object inner cell inside rfl
    exact (Option.some.inj inside).symm
  have filled : (letter (office [])).Filled :=
    reads (fun _ vacant => by cases vacant) (fun _ vacant => by cases vacant)
  have travels : View.reading.Unbracketed (letter (office [])) := reads (by decide) (by decide)
  have faithful : mailing.registry.Faithful (letter (office [])) := by
    refine builds (fun declared blank holds created => ?_) (fun _ _ holds _ => by cases holds)
    cases holds
    cases created
    rfl
  have listed : (View.building mailing.registry).Unbracketed (letter (office [])) :=
    builds (by decide) (by decide)
  have pinpoints := pinpoints_of_mismatch ordered
  exact ⟨rfl, pinpoints.1 _ filled travels _ rfl rfl, rfl,
    (pinpoints.2 mailing rfl rfl).2 "Letter" _ rfl faithful listed _ rfl rfl⟩

end TypedRecord
