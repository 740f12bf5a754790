import TypedRecord.Proofs.Depth
import TypedRecord.Proofs.Hydration

/-!
# Processing ahead of assignment

A hydrator processes the value of a key when it comes to it, at every level that it opens. The same
can be done ahead: from the top down, the value of every key that has a processor is replaced by
what the processor makes of it, and so it goes on in every map that lands in a column for an entity,
whose columns are those of the entity that the registry makes there. Main statement: where the
processors refuse nothing, a hydration with them comes to what an assignment without them makes of
the replaced mapping, with the same state and the same error; and it makes no difference whether
what became null is left in that mapping or left out.
-/
namespace TypedRecord

open Entries

namespace Progress

variable {α β γ : Type} {items : List β} {state : α}

/-- The work for changed items is that of a step that changes its item first. -/
theorem each_map {step : α → γ → Progress α} (change : β → γ) :
    each (items.map change) step state =
      each items (fun state item => step state (change item)) state := by
  induction items generalizing state with
  | nil => rfl
  | cons item rest ih => exact andThen_congr fun middle _ => @ih middle

/-- Items for which nothing is done may be left out. -/
theorem each_filter {step : α → β → Progress α} {keeps : β → Bool}
    (idle : ∀ item, keeps item = false → ∀ state, step state item = complete state) :
    each (items.filter keeps) step state = each items step state := by
  induction items generalizing state with
  | nil => rfl
  | cons item rest ih =>
    cases kept : keeps item with
    | true =>
      rw [List.filter_cons_of_pos kept]
      exact andThen_congr fun middle _ => @ih middle
    | false =>
      have left : keeps item ≠ true := by rw [kept]; exact Bool.false_ne_true
      rw [List.filter_cons_of_neg left, ih, each, idle item kept state]
      rfl

end Progress

/-! ### Replaced mappings -/

/-- A value in a column: a map for an entity is changed by the name of the type that is declared
there, and any other value stays. -/
def Value.changedIn (change : String → Mapping → Mapping) (cell : Option Cell) : Value → Value
  | .map entries => match cell.bind Cell.declared? with
    | some declared => .map (change declared.name entries)
    | none => .map entries
  | value => value

/-- A change of the mapping for an entity of a name, which depends on the blank entity that is
made. -/
def Registry.onBlank (registry : Registry) (change : Object → Mapping → Mapping) (name : String)
    (values : Mapping) : Mapping :=
  match registry.create name with
  | .ok blank => change blank values
  | .error _ => values

namespace Hydrator

variable {hydrator : Hydrator} {build other : String → Mapping → Except Error Object}
  {object reached : Object} {key : String} {raw value : Value} {values : Mapping} {nulls : Bool}
  {levels depth : Nat}

/-- The same hydrator without processors. -/
def withoutProcessors (hydrator : Hydrator) : Hydrator := { hydrator with processors := [] }

/-- No processor refuses anything. -/
def RefusesNothing (hydrator : Hydrator) : Prop :=
  ∀ entry ∈ hydrator.processors, ∀ key raw, ∃ value, entry.2 key raw = .ok value

/-- What the processor of a key makes of a value; the value itself if the key has none. -/
def replacement (hydrator : Hydrator) (key : String) (raw : Value) : Value :=
  match hydrator.process key raw with
  | .ok value => value
  | .error _ => raw

/-- A mapping for an entity with the values replaced under all keys, known or not, and then in the
maps for entities inside, so many levels deep; with or without what became null. -/
def replaced (hydrator : Hydrator) (nulls : Bool) : Nat → Object → Mapping → Mapping
  | 0, _, values => values
  | depth + 1, object, values =>
    (values.map fun entry =>
      (entry.1, (hydrator.replacement entry.1 entry.2).changedIn
        (hydrator.registry.onBlank (replaced hydrator nulls depth))
          (object.cell? .table entry.1))).filter fun entry => nulls || !entry.2.isNull

/-- Where processors refuse nothing, a value is processed to its replacement. -/
theorem process_eq_replacement (refuses : hydrator.RefusesNothing) (key : String) (raw : Value) :
    hydrator.process key raw = .ok (hydrator.replacement key raw) := by
  have succeeds : ∃ value, hydrator.process key raw = .ok value := by
    rw [process]
    cases found : find? hydrator.processors key with
    | none => exact ⟨raw, rfl⟩
    | some processor => exact refuses (key, processor) (mem_of_find? found) key raw
  obtain ⟨value, processed⟩ := succeeds
  rw [replacement, processed]

/-- A value is null in a column when it is. -/
theorem isNull_changedIn (change : String → Mapping → Mapping) (cell : Option Cell)
    (value : Value) : (value.changedIn change cell).isNull = value.isNull := by
  cases value with
  | map entries =>
    rw [Value.changedIn]
    split <;> rfl
  | _ => rfl

/-- A value stays in a column that is not for an entity. -/
theorem changedIn_of_undeclared {cell : Option Cell} (undeclared : cell.bind Cell.declared? = none)
    (change : String → Mapping → Mapping) (value : Value) :
    value.changedIn change cell = value := by
  cases value with
  | map entries => rw [Value.changedIn, undeclared]
  | _ => rfl

/-- In a replaced mapping stands what the processors made, changed as its column asks; null only if
it is left in. -/
theorem mem_replaced_iff (refuses : hydrator.RefusesNothing) :
    (key, value) ∈ hydrator.replaced nulls (depth + 1) object values ↔
      ∃ raw made, (key, raw) ∈ values ∧ hydrator.process key raw = .ok made ∧
        value = made.changedIn (hydrator.registry.onBlank (hydrator.replaced nulls depth))
          (object.cell? .table key) ∧ (made.isNull = true → nulls = true) := by
  have kept : ∀ null : Bool, (nulls || !null) = true ↔ (null = true → nulls = true) := by
    cases nulls <;> decide
  rw [replaced, List.mem_filter, kept, List.mem_map]
  constructor
  · rintro ⟨⟨⟨held, raw⟩, member, same⟩, present⟩
    obtain ⟨rfl, rfl⟩ := Prod.mk.inj same
    rw [isNull_changedIn] at present
    exact ⟨raw, _, member, process_eq_replacement refuses held raw, rfl, present⟩
  · rintro ⟨raw, made, member, processed, rfl, present⟩
    have same := Except.ok.inj (processed.symm.trans (process_eq_replacement refuses key raw))
    refine ⟨⟨(key, raw), member, by rw [same]⟩, ?_⟩
    rwa [isNull_changedIn]

/-- Under a key without a column for an entity stands what its processor made, as it is. -/
theorem mem_replaced_iff_of_undeclared (refuses : hydrator.RefusesNothing)
    (undeclared : (object.cell? .table key).bind Cell.declared? = none) :
    (key, value) ∈ hydrator.replaced nulls (depth + 1) object values ↔
      ∃ raw, (key, raw) ∈ values ∧ hydrator.process key raw = .ok value ∧
        (value.isNull = true → nulls = true) := by
  simp only [mem_replaced_iff refuses, changedIn_of_undeclared undeclared]
  constructor
  · rintro ⟨raw, made, member, processed, rfl, present⟩
    exact ⟨raw, member, processed, present⟩
  · rintro ⟨raw, member, processed, present⟩
    exact ⟨raw, value, member, processed, rfl, present⟩

/-- The maps under a key with a column for an entity are those that its processor made, replaced for
the entity that the registry makes there. -/
theorem mem_replaced_iff_of_declared (refuses : hydrator.RefusesNothing) {declared : Declared}
    {blank : Object} (holds : (object.cell? .table key).bind Cell.declared? = some declared)
    (created : hydrator.registry.create declared.name = .ok blank) {inner : Mapping} :
    (key, .map inner) ∈ hydrator.replaced nulls (depth + 1) object values ↔
      ∃ raw made, (key, raw) ∈ values ∧ hydrator.process key raw = .ok (.map made) ∧
        inner = hydrator.replaced nulls depth blank made := by
  have changed : ∀ entries, (Value.map entries).changedIn
      (hydrator.registry.onBlank (hydrator.replaced nulls depth)) (object.cell? .table key) =
        .map (hydrator.replaced nulls depth blank entries) := by
    intro entries
    simp only [Value.changedIn, holds, Registry.onBlank, created]
  rw [mem_replaced_iff refuses]
  constructor
  · rintro ⟨raw, made, member, processed, same, -⟩
    cases made with
    | map entries =>
      rw [changed, Value.map.injEq] at same
      exact ⟨raw, entries, member, processed, same⟩
    | _ => simp [Value.changedIn] at same
  · rintro ⟨raw, made, member, processed, rfl⟩
    exact ⟨raw, .map made, member, processed, (changed made).symm, fun null => by cases null⟩

/-! ### Assignments of replaced mappings -/

/-- A value is nested as the changed value is, when what is built of a changed mapping is what was
built of the mapping. -/
theorem nest_changedIn {change : String → Mapping → Mapping}
    (builds : ∀ name entries, build name entries = other name (change name entries))
    {cell : Option Cell} {declared : Declared} (holds : cell.bind Cell.declared? = some declared)
    (key : String) (value : Value) :
    nest build declared key value = nest other declared key (value.changedIn change cell) := by
  cases value with
  | map entries => rw [Value.changedIn, holds, nest, nest, builds]
  | _ => rfl

/-- A value is assigned as the changed value is without processors, wherever the columns are those
for which it was changed. -/
theorem assignValue_changedIn {change : String → Mapping → Mapping}
    (builds : ∀ name entries, build name entries = other name (change name entries))
    (same : reached.SameSlots object) (key : String) (value : Value) :
    hydrator.assignValue build reached key value =
      hydrator.withoutProcessors.assignValue other reached key
        (value.changedIn change (object.cell? .table key)) := by
  have columns := Cell.bind_declared?_congr (same key)
  rw [assignValue, assignValue, isNull_changedIn, ← show hydrator.settings =
    hydrator.withoutProcessors.settings from rfl]
  cases held : reached.cell? .table key with
  | none => rfl
  | some cell =>
    rw [held, Option.bind_some] at columns
    have assigned : assignCell build key value cell =
        assignCell other key (value.changedIn change (object.cell? .table key)) cell := by
      cases holds : cell.declared? with
      | none =>
        rw [changedIn_of_undeclared (columns.symm.trans holds)]
        cases cell with
        | plain content => rfl
        | entity _ _ | vacant _ => cases holds
      | some declared =>
        rw [assignCell_of_declared? _ _ _ holds, assignCell_of_declared? _ _ _ holds,
          nest_changedIn builds (columns.symm.trans holds)]
    simp only [assigned]

/-- Null is not assigned, so without processors nothing is done for it. -/
theorem assignEntry_of_isNull {entry : String × Value} (null : entry.2.isNull = true)
    (state : Object) :
    hydrator.withoutProcessors.assignEntry build state entry = .complete state := by
  have raw := @process_of_unprocessed hydrator.withoutProcessors rfl entry.1 entry.2
  rw [assignEntry, raw]
  exact if_pos null

/-- An entity is built of a mapping as one is built without processors of the replaced mapping, when
the mappings are assigned alike. -/
theorem buildWith_onBlank {assign again : Object → Mapping → Progress Object}
    {change : Object → Mapping → Mapping}
    (assigns : ∀ blank entries, assign blank entries = again blank (change blank entries))
    (name : String) (values : Mapping) :
    hydrator.buildWith assign name values =
      hydrator.withoutProcessors.buildWith again name
        (hydrator.registry.onBlank change name values) := by
  have registry : hydrator.withoutProcessors.registry = hydrator.registry := rfl
  rw [buildWith, buildWith, registry, Registry.onBlank]
  cases hydrator.registry.create name with
  | error error => rfl
  | ok blank => simp only [assigns]

/-- A mapping is assigned as the replaced mapping is without processors, when it is replaced in all
levels that may be opened. -/
theorem assign_eq_assign_replaced (refuses : hydrator.RefusesNothing) (deep : levels ≤ depth)
    (object : Object) (values : Mapping) :
    hydrator.assign levels object values =
      hydrator.withoutProcessors.assign levels object
        (hydrator.replaced nulls depth object values) := by
  induction levels generalizing depth object values with
  | zero => rfl
  | succ levels ih =>
    obtain ⟨depth, rfl⟩ : ∃ inner, depth = inner + 1 := ⟨depth - 1, by omega⟩
    have builds := fun name entries =>
      @buildWith_onBlank hydrator (hydrator.assign levels)
        (hydrator.withoutProcessors.assign levels) (hydrator.replaced nulls depth)
        (ih (Nat.le_of_succ_le_succ deep)) name entries
    rw [replaced]
    show Progress.each values (hydrator.assignEntry _) object =
      Progress.each _ (hydrator.withoutProcessors.assignEntry _) object
    rw [Progress.each_filter, Progress.each_map]
    · refine Progress.each_congr (fun state => state.SameSlots object)
        (fun _ _ _ _ => sameSlots_of_complete) ?_ fun _ => rfl
      -- a run leaves the slots, so a map lands where it did for the entity at the start
      rintro ⟨key, raw⟩ - reached same
      have bare := @process_of_unprocessed hydrator.withoutProcessors rfl key
      rw [assignEntry, assignEntry, bare, process_eq_replacement refuses]
      exact assignValue_changedIn builds same key _
    · intro entry left state
      refine assignEntry_of_isNull ?_ state
      cases null : entry.2.isNull with
      | true => rfl
      | false => simp [null] at left

/-- A hydrator whose processors refuse nothing hydrates in place, hydrates whole and makes new
entities as one without processors assigns the renamed mapping once it is replaced in no fewer
levels than may be opened: the states and the errors are the same, whether what became null is left
in the mapping or not. At every level, what stands under a key without a column for an entity, known
or not, is what the processor of the key made, and nothing inside it is processed; a map under a key
with such a column is what the processor made of it, replaced in turn for the entity that is made
there. -/
theorem hydrate_eq_assign_replaced (refuses : hydrator.RefusesNothing) (object : Object)
    (name : String) (values : Mapping) (nulls : Bool) {depth : Nat}
    (deep : hydrator.levels ≤ depth) :
    hydrator.hydrate object values =
        hydrator.withoutProcessors.assign hydrator.levels object
          (hydrator.replaced nulls depth object (hydrator.rename values)) ∧
      hydrator.setFields object values =
        (hydrator.withoutProcessors.assign hydrator.levels object
          (hydrator.replaced nulls depth object (hydrator.rename values))).allOrNothing object ∧
      hydrator.create name values =
        hydrator.withoutProcessors.buildWith (hydrator.withoutProcessors.assign hydrator.levels)
          name (hydrator.registry.onBlank (hydrator.replaced nulls depth) name
            (hydrator.rename values)) ∧
      ∀ below reached entries key,
        ((reached.cell? .table key).bind Cell.declared? = none → ∀ value,
          (key, value) ∈ hydrator.replaced nulls (below + 1) reached entries ↔
            ∃ raw, (key, raw) ∈ entries ∧ hydrator.process key raw = .ok value ∧
              (value.isNull = true → nulls = true)) ∧
        ∀ declared blank, (reached.cell? .table key).bind Cell.declared? = some declared →
          hydrator.registry.create declared.name = .ok blank → ∀ inner,
            (key, .map inner) ∈ hydrator.replaced nulls (below + 1) reached entries ↔
              ∃ raw made, (key, raw) ∈ entries ∧ hydrator.process key raw = .ok (.map made) ∧
                inner = hydrator.replaced nulls below blank made := by
  have assigned := @assign_eq_assign_replaced hydrator nulls hydrator.levels depth refuses deep
  have hydrated := assigned object (hydrator.rename values)
  refine ⟨hydrated, congrArg (Progress.allOrNothing object) hydrated,
    buildWith_onBlank assigned name (hydrator.rename values), fun below reached entries key =>
      ⟨fun undeclared value => ?_, fun declared blank holds created inner => ?_⟩⟩
  · exact mem_replaced_iff_of_undeclared refuses undeclared
  · exact mem_replaced_iff_of_declared refuses holds created

/-- A hydrator like `forwarding` that takes identities away and weighs nothing. -/
def censoring : Hydrator :=
  { forwarding with
    processors := [("Id", fun _ _ => .ok .null), ("Town", fun _ _ => .ok (.text "LYON")),
      ("Weight", fun _ _ => .ok (.int 0))] }

/-- What a forged parcel is hydrated from. -/
def forged : Mapping :=
  [("Id", .text "id-1"), ("Marks", .list [.text "new"]), ("Place", .map [("Town", .text "Lyon")]),
    ("Weight", .int 7), ("street", .text "Rue")]

/-- No identity is assigned, a town has one name at any level, and a weight is one number although
no column of the table is for it. -/
theorem hydrate_eq_assign_replaced_parcel :
    censoring.RefusesNothing ∧ censoring.levels ≤ 33 ∧
      censoring.replaced false 33 (parcel ["old"] (place "Nice" "Quai" 5))
          (censoring.rename forged) =
        [("Marks", .list [.text "new"]),
          ("Place", .map [("Street", .text "Rue"), ("Town", .text "LYON")]), ("Weight", .int 0)] ∧
      censoring.setFields (parcel ["old"] (place "Nice" "Quai" 5)) forged =
        .complete (parcel ["new"] (place "LYON" "Rue" 0)) := by
  have refuses : censoring.RefusesNothing := by
    simp only [RefusesNothing, censoring, List.forall_mem_cons, List.not_mem_nil,
      false_implies, implies_true, and_true]
    exact ⟨fun _ _ => ⟨_, rfl⟩, fun _ _ => ⟨_, rfl⟩, fun _ _ => ⟨_, rfl⟩⟩
  have deep : censoring.levels ≤ 33 := by decide
  have renamed : censoring.rename forged =
      [("Id", .text "id-1"), ("Marks", .list [.text "new"]),
        ("Place", .map [("Street", .text "Rue"), ("Town", .text "Lyon")]), ("Weight", .int 7)] :=
    rfl
  have whole := (hydrate_eq_assign_replaced refuses (parcel ["old"] (place "Nice" "Quai" 5))
    "Place" forged false deep).2.1
  have remade : censoring.replaced false 33 (parcel ["old"] (place "Nice" "Quai" 5))
      (censoring.rename forged) =
        [("Marks", .list [.text "new"]),
          ("Place", .map [("Street", .text "Rue"), ("Town", .text "LYON")]),
          ("Weight", .int 0)] := by
    rw [renamed]
    rfl
  rw [remade] at whole
  exact ⟨refuses, deep, remade, whole.trans rfl⟩

end Hydrator

end TypedRecord
