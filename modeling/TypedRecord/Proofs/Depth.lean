import TypedRecord.Proofs.Runs

/-!
# The limit on nested entities

How deep a hydration goes is told by the mapping and by the entities that the registry makes, before
anything is assigned: a map counts where it stands in a column for an entity, empty or not. Main
statement: with a limit below that depth a hydration does not succeed, and with any other limit it
comes to the same, so a limit only ever keeps hydrations from going deeper.
-/
namespace TypedRecord

open Entries

namespace Registry

variable {registry : Registry} {object : Object} {data entries : Mapping} {value : Value}
  {levels : Nat}

/-- A mapping has no more than some levels when none of its values has more in its column. -/
theorem nesting_le_iff : registry.nesting object data ≤ levels ↔
    ∀ entry ∈ data, registry.nestingUnder (object.cell? .table entry.1) entry.2 ≤ levels := by
  induction data with
  | nil => simp [nesting]
  | cons entry rest ih => rw [nesting, Nat.max_le, ih, List.forall_mem_cons]

/-- How many levels a value has in a column depends on what the column is for. -/
theorem nestingUnder_congr {first second : Option Cell}
    (slots : first.map Cell.slot = second.map Cell.slot) (value : Value) :
    registry.nestingUnder first value = registry.nestingUnder second value := by
  have declared := Cell.bind_declared?_congr slots
  cases value with
  | map entries => rw [nestingUnder, nestingUnder, declared]
  | _ => rw [nestingUnder, nestingUnder] <;> simp

/-- A value has no levels where there is no column for an entity. -/
theorem nestingUnder_of_undeclared {cell : Option Cell}
    (undeclared : cell.bind Cell.declared? = none) (value : Value) :
    registry.nestingUnder cell value = 0 := by
  cases value with
  | map entries => simp only [nestingUnder, undeclared]
  | _ => rw [nestingUnder]; simp

/-- A map opens a level in a column for an entity that the registry makes. -/
theorem nestingUnder_of_created {cell : Cell} {declared : Declared} {blank : Object}
    (holds : cell.declared? = some declared) (created : registry.create declared.name = .ok blank)
    (entries : Mapping) :
    registry.nestingUnder (some cell) (.map entries) = registry.nesting blank entries + 1 := by
  simp only [nestingUnder, Option.bind_some, holds, created]

end Registry

/-- An error says that entities are nested too deep. -/
def Error.IsTooDeep (error : Error) : Prop :=
  ∃ limit, error.cause = .badArgument (.tooDeep limit)

namespace Hydrator

variable {hydrator : Hydrator} {object final : Object} {values : Mapping} {levels : Nat}

/-- A hydrator with another limit on nested entities. -/
def withMaxDepth (hydrator : Hydrator) (depth : Nat) : Hydrator :=
  { hydrator with settings := { hydrator.settings with maxDepth := depth } }

/-! ### Assignments that are complete are not deeper than their levels -/

/-- A value that is assigned to a column has no more levels there than may be opened, when so it is
with the entities that are built. -/
theorem nestingUnder_le_of_assignCell {key : String} {value : Value} {cell changed : Cell}
    (inner : ∀ blank entries built, hydrator.assign levels blank entries = .complete built →
      hydrator.registry.nesting blank entries < levels)
    (assigned : assignCell (hydrator.buildWith (hydrator.assign levels)) key value cell =
      .ok changed) : hydrator.registry.nestingUnder (some cell) value ≤ levels := by
  cases holds : cell.declared? with
  | none =>
    have undeclared : (some cell).bind Cell.declared? = none := holds
    rw [Registry.nestingUnder_of_undeclared undeclared]
    exact Nat.zero_le levels
  | some declared =>
    rw [assignCell_of_declared? _ _ _ holds, exceptMap_eq_ok] at assigned
    obtain ⟨built, nested, -⟩ := assigned
    obtain ⟨entries, rfl, made, -⟩ := nest_eq_ok.mp nested
    obtain ⟨blank, created, -, done⟩ := buildWith_eq_ok.mp made
    rw [Registry.nestingUnder_of_created holds created]
    exact inner blank entries built done

/-- A mapping that is assigned completely has fewer levels than may be opened. -/
theorem nesting_lt_of_assign (unprocessed : hydrator.processors = [])
    (done : hydrator.assign levels object values = .complete final) :
    hydrator.registry.nesting object values < levels := by
  induction levels generalizing object final values with
  | zero => simp [assign, Progress.stop, Progress.complete] at done
  | succ levels ih =>
    rw [Nat.lt_succ_iff, Registry.nesting_le_iff]
    rintro ⟨key, value⟩ member
    obtain ⟨reached, next, same, stepped⟩ := entries_of_complete done _ member
    rw [← Registry.nestingUnder_congr (same key)]
    have raw := process_of_unprocessed unprocessed key value
    cases completes_iff.mp stepped with
    | null processed null =>
      cases raw.symm.trans processed
      rw [Value.eq_null_of_isNull null, Registry.nestingUnder] <;> simp
    | skipped _ _ absent _ =>
      rw [absent, Registry.nestingUnder_of_undeclared rfl]
      exact Nat.zero_le levels
    | assigned processed _ held assigned =>
      cases raw.symm.trans processed
      rw [held]
      exact nestingUnder_le_of_assignCell (fun _ _ _ complete => ih complete) assigned

/-! ### Assignments within their levels come to the same -/

section Congr

variable {build other : String → Mapping → Except Error Object} {key : String} {value : Value}

/-- What is assigned to a column depends on the entities that are built for it. -/
theorem assignCell_congr {cell : Cell}
    (agree : ∀ declared entries, cell.declared? = some declared → value = .map entries →
      build declared.name entries = other declared.name entries) :
    assignCell build key value cell = assignCell other key value cell := by
  cases holds : cell.declared? with
  | none =>
    cases cell with
    | plain content => rfl
    | entity _ _ | vacant _ => cases holds
  | some declared =>
    rw [assignCell_of_declared? build key value holds,
      assignCell_of_declared? other key value holds]
    cases value with
    | map entries => rw [nest, nest, agree declared entries holds rfl]
    | _ => rfl

/-- How an entry is assigned depends on the entities that are built for its column. -/
theorem assignEntry_congr {raw : Value}
    (agree : ∀ cell declared entries, object.cell? .table key = some cell →
      cell.declared? = some declared → hydrator.process key raw = .ok (.map entries) →
        build declared.name entries = other declared.name entries) :
    hydrator.assignEntry build object (key, raw) =
      hydrator.assignEntry other object (key, raw) := by
  simp only [assignEntry]
  cases processed : hydrator.process key raw with
  | error error => rfl
  | ok value =>
    simp only [assignValue]
    cases held : object.cell? .table key with
    | none => rfl
    | some cell =>
      have same : assignCell build key value cell = assignCell other key value cell :=
        assignCell_congr fun declared entries holds map =>
          agree cell declared entries held holds (map ▸ processed)
      simp only [same]

end Congr

/-- A level that a value needs in a column is one that may be opened, and leaves enough for the
entity that is made there. -/
theorem exists_levels_of_nestingUnder_le {cell : Cell} {declared : Declared} {blank : Object}
    {entries : Mapping} (holds : cell.declared? = some declared)
    (created : hydrator.registry.create declared.name = .ok blank)
    (shallow : hydrator.registry.nestingUnder (some cell) (.map entries) ≤ levels) :
    ∃ inner, levels = inner + 1 ∧ hydrator.registry.nesting blank entries ≤ inner := by
  rw [Registry.nestingUnder_of_created holds created] at shallow
  exact ⟨levels - 1, by omega, by omega⟩

/-- Where nothing is processed, assignments that have levels enough come to the same, whatever limit
they would report. -/
theorem assign_withMaxDepth_eq (unprocessed : hydrator.processors = []) {more first second : Nat}
    (shallow : hydrator.registry.nesting object values ≤ levels) (enough : levels ≤ more) :
    (hydrator.withMaxDepth first).assign (levels + 1) object values =
      (hydrator.withMaxDepth second).assign (more + 1) object values := by
  induction levels using Nat.strongRecOn generalizing object values more with
  | ind levels ih =>
    refine each_congr_of_sameSlots ?_
    rintro ⟨key, raw⟩ member reached same
    -- the limit is only reported, so the entries are assigned by one function
    show hydrator.assignEntry (hydrator.buildWith ((hydrator.withMaxDepth first).assign levels))
        reached (key, raw) =
      hydrator.assignEntry (hydrator.buildWith ((hydrator.withMaxDepth second).assign more))
        reached (key, raw)
    refine assignEntry_congr fun cell declared entries held holds processed => ?_
    cases (process_of_unprocessed unprocessed key raw).symm.trans processed
    cases created : hydrator.registry.create declared.name with
    | error failure => simp only [buildWith, created]
    | ok blank =>
      have opened : hydrator.registry.nestingUnder (some cell) (.map entries) ≤ levels := by
        rw [← held, Registry.nestingUnder_congr (same key)]
        exact Registry.nesting_le_iff.mp shallow _ member
      obtain ⟨inner, rfl, below⟩ := exists_levels_of_nestingUnder_le holds created opened
      obtain ⟨above, rfl⟩ : ∃ above, more = above + 1 := ⟨more - 1, by omega⟩
      have enough : inner ≤ above := by omega
      simp only [buildWith, created, ih inner (Nat.lt_succ_self inner) below enough]

/-- Where nothing is processed, an assignment that has levels enough is never too deep. -/
theorem not_isTooDeep_of_assign (unprocessed : hydrator.processors = [])
    (shallow : hydrator.registry.nesting object values ≤ levels) {error : Error}
    (stopped : (hydrator.assign (levels + 1) object values).stopped = some error) :
    ¬ error.IsTooDeep := by
  induction levels using Nat.strongRecOn generalizing object values error with
  | ind levels ih =>
    obtain ⟨key, raw, member, reached, same, stops⟩ := entry_of_stopped stopped
    have processing := process_of_unprocessed unprocessed key raw
    rintro ⟨limit, deep⟩
    cases stops with
    | refused processed => cases processing.symm.trans processed
    | unknown => cases deep
    | content _ _ _ failed =>
      obtain ⟨_, _, _, rfl, -⟩ := Content.refuses_of_load failed
      cases deep
    | entity processed _ held holds failed =>
      cases processing.symm.trans processed
      obtain ⟨-, rfl⟩ | ⟨entries, rfl, ⟨failure, made, rfl⟩ | ⟨_, _, _, rfl⟩⟩ :=
        nest_eq_error.mp failed
      · cases deep
      · obtain missing | ⟨blank, created, ⟨-, rfl⟩ | ⟨-, inside⟩⟩ := buildWith_eq_error.mp made
        · cases Registry.eq_missingType_of_create missing
          cases deep
        · cases deep
        · -- the entity is built with a level less, and its mapping has a level less
          have opened := Registry.nesting_le_iff.mp shallow _ member
          rw [← Registry.nestingUnder_congr (same key), held] at opened
          obtain ⟨inner, rfl, below⟩ := exists_levels_of_nestingUnder_le holds created opened
          exact ih inner (Nat.lt_succ_self inner) below inside ⟨limit, deep⟩
      · cases deep

/-- Where nothing is processed, a hydration whole with a limit below the depth of the mapping does
not succeed, and one with any other limit is never too deep and comes to the same with a higher
limit, so a hydration that succeeds is not changed by a higher limit. -/
theorem setFields_withMaxDepth (unprocessed : hydrator.processors = []) (object : Object)
    (values : Mapping) (depth : Nat) :
    (depth < hydrator.registry.nesting object (hydrator.rename values) → ∀ final,
        (hydrator.withMaxDepth depth).setFields object values ≠ .complete final) ∧
      (hydrator.registry.nesting object (hydrator.rename values) ≤ depth →
        (∀ error, ((hydrator.withMaxDepth depth).setFields object values).stopped = some error →
          ¬ error.IsTooDeep) ∧
        ∀ deeper, depth ≤ deeper → (hydrator.withMaxDepth deeper).setFields object values =
          (hydrator.withMaxDepth depth).setFields object values) ∧
      ∀ final, (hydrator.withMaxDepth depth).setFields object values = .complete final →
        ∀ deeper, depth ≤ deeper →
          (hydrator.withMaxDepth deeper).setFields object values = .complete final := by
  have unprocessedToo : (hydrator.withMaxDepth depth).processors = [] := unprocessed
  have within : ∀ final, (hydrator.withMaxDepth depth).setFields object values = .complete final →
      hydrator.registry.nesting object (hydrator.rename values) ≤ depth := by
    intro final done
    rw [setFields, Progress.allOrNothing_eq_complete] at done
    have shallow := nesting_lt_of_assign unprocessedToo done
    exact Nat.lt_succ_iff.mp shallow
  have same : hydrator.registry.nesting object (hydrator.rename values) ≤ depth → ∀ deeper,
      depth ≤ deeper → (hydrator.withMaxDepth deeper).setFields object values =
        (hydrator.withMaxDepth depth).setFields object values := by
    intro shallow deeper enough
    exact congrArg (Progress.allOrNothing object)
      (assign_withMaxDepth_eq unprocessed shallow enough).symm
  refine ⟨fun deep final done => ?_, fun shallow => ⟨fun error stopped => ?_, same shallow⟩,
    fun final done deeper enough => ?_⟩
  · exact Nat.not_le.mpr deep (within final done)
  · rw [setFields, Progress.stopped_allOrNothing] at stopped
    exact not_isTooDeep_of_assign unprocessedToo shallow stopped
  · rw [same (within final done) deeper enough, done]

/-- An empty folder in a folder in a folder is a level too much for one level, and enough for two
levels, which are then as good as seven. -/
theorem setFields_withMaxDepth_folder :
    (∀ final, (filing.withMaxDepth 1).setFields (folder "top" none (.vacant folderInside))
        [("Inside", .map [("Inside", .map [])])] ≠ .complete final) ∧
      (filing.withMaxDepth 7).setFields (folder "top" none (.vacant folderInside))
          [("Inside", .map [("Inside", .map [])])] =
        .complete (folder "top" none (.entity folderInside
          (folder "" none (.entity folderInside (folder "" none (.vacant folderInside)))))) :=
  have unprocessed : filing.processors = [] := rfl
  ⟨(setFields_withMaxDepth unprocessed _ _ 1).1 (by decide),
    (setFields_withMaxDepth unprocessed _ _ 2).2.2 _ rfl 7 (by decide)⟩

end Hydrator

end TypedRecord
