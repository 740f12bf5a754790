import TypedRecord.Entity.Component
import TypedRecord.Proofs.Assignment
import TypedRecord.Proofs.Renaming

/-!
# Protected fields

An update drops the protected keys before its keys are renamed, so what can still reach a protected
field is a key that is renamed to it or to a path beneath it. Main statement: an update that
succeeds keeps the value of a protected field exactly when no such key brings a value that reads
back differently.
-/
namespace TypedRecord.Hydrator

open Entries

variable {hydrator : Hydrator} {object final : Object} {values : Mapping} {name : String}

/-- The name under which the value of a key stands once the keys are renamed. -/
def heading (hydrator : Hydrator) (key : String) : String :=
  if hydrator.rules.isEmpty then key else (Path.segments (hydrator.rules.target key)).1

/-- A name is found among renamed keys only if a key has it as its heading. -/
theorem find?_rename_eq_none (elsewhere : ∀ key ∈ keys values, hydrator.heading key ≠ name) :
    find? (hydrator.rename values) name = none := by
  by_cases unruled : hydrator.rules.isEmpty
  · simp only [rename, unruled, ↓reduceIte]
    rw [find?_eq_none_iff]
    intro entry member
    simpa [heading, unruled] using elsewhere entry.1 (List.mem_map_of_mem member)
  · simp only [rename, unruled, Bool.false_eq_true, ↓reduceIte, Rules.apply]
    apply Mapping.find?_ofPaths_eq_none
    intro moved member
    have target : moved.1 ∈ (hydrator.rules.moved values).map Prod.fst :=
      List.mem_map_of_mem member
    rw [Rules.map_fst_moved] at target
    obtain ⟨entry, held, equal⟩ := List.mem_map.mp target
    have apart := elsewhere entry.1 (List.mem_map_of_mem held)
    simpa [heading, unruled, equal] using apart

/-- What is left of an update are entries of it. -/
theorem unprotected_sublist (hydrator : Hydrator) (values : Mapping) :
    (hydrator.unprotected values).Sublist values := by
  rw [unprotected]
  induction hydrator.settings.protectedFields generalizing values with
  | nil => exact List.Sublist.refl values
  | cons key rest ih => exact (ih (erase values key)).trans List.filter_sublist

/-- A protected key is not left in an update. -/
theorem notMem_keys_unprotected (guarded : name ∈ hydrator.settings.protectedFields) :
    name ∉ keys (hydrator.unprotected values) :=
  notMem_keys_foldl_erase (.inl guarded)

/-- The entities that an outermost assignment nests. -/
def nested (hydrator : Hydrator) : String → Mapping → Except Error Object :=
  hydrator.buildWith (hydrator.assign hydrator.settings.maxDepth)

/-- An update overwrites a name when a key that is left after the protected ones are dropped stands
under it once renamed, with a value that the column of the name takes and reads back as another one
than it held. -/
def Overwrites (hydrator : Hydrator) (object : Object) (values : Mapping) (name : String) : Prop :=
  (∃ key ∈ keys (hydrator.unprotected values), hydrator.heading key = name) ∧
    ∃ value cell changed,
      hydrator.arrival? (hydrator.rename (hydrator.unprotected values)) name = some value ∧
      object.cell? .table name = some cell ∧
      assignCell hydrator.nested name value cell = .ok changed ∧ changed.toValue ≠ cell.toValue

/-- A complete update leaves in the column of a protected name what its renamed keys bring there. -/
theorem landed_of_setValues (guarded : name ∈ hydrator.settings.protectedFields)
    (done : hydrator.setValues object values = .complete final) :
    landed hydrator.nested name
      (hydrator.arrival? (hydrator.rename (hydrator.unprotected values)) name)
      (object.cell? .table name) = .ok (final.cell? .table name) := by
  have assigned : Progress.each (hydrator.rename (hydrator.unprotected values))
      (hydrator.assignEntry hydrator.nested) object = .complete final :=
    Progress.allOrNothing_eq_complete.mp done
  by_cases unruled : hydrator.rules.isEmpty
  · -- Nothing is renamed, and the protected key itself is gone.
    have absent : find? (hydrator.rename (hydrator.unprotected values)) name = none := by
      apply find?_rename_eq_none
      intro key member same
      simp only [heading, unruled, ↓reduceIte] at same
      exact notMem_keys_unprotected guarded (same ▸ member)
    rw [cell?_of_assigned assigned absent]
    simp [arrival?, absent, landed]
  · have sorted : Sorted (hydrator.rename (hydrator.unprotected values)) := by
      simp only [rename, unruled, Bool.false_eq_true, ↓reduceIte, Rules.apply]
      exact Mapping.sorted_ofPaths _
    exact landed_of_assigned sorted assigned name

/-- An update that succeeds keeps the value of a protected name exactly when it does not overwrite
it. -/
theorem value?_setValues_iff (guarded : name ∈ hydrator.settings.protectedFields)
    (done : hydrator.setValues object values = .complete final) :
    final.value? name = object.value? name ↔ ¬ hydrator.Overwrites object values name := by
  have step := landed_of_setValues guarded done
  constructor
  · rintro kept ⟨-, value, cell, changed, arrived, held, assigned, different⟩
    rw [arrived, held, landed, assigned] at step
    have read : final.cell? .table name = some changed := (Except.ok.inj step).symm
    rw [Object.value?, Object.value?, read, held, Option.map_some, Option.map_some] at kept
    exact different (Option.some.inj kept)
  · intro spared
    cases arrived : hydrator.arrival? (hydrator.rename (hydrator.unprotected values)) name with
    | none =>
      rw [arrived, landed] at step
      · rw [Object.value?, Object.value?, Except.ok.inj step]
      · simp
    | some value =>
      cases held : object.cell? .table name with
      | none =>
        rw [arrived, held, landed] at step
        · rw [Object.value?, Object.value?, held, ← Except.ok.inj step]
        · simp
      | some cell =>
        rw [arrived, held, landed] at step
        cases assigned : assignCell hydrator.nested name value cell with
        | error error => simp [assigned, Except.map] at step
        | ok changed =>
          rw [assigned] at step
          have read : final.cell? .table name = some changed := (Except.ok.inj step).symm
          have moved : ∃ key ∈ keys (hydrator.unprotected values),
              hydrator.heading key = name := by
            by_contra none
            push Not at none
            rw [arrival?, find?_rename_eq_none none] at arrived
            simp at arrived
          have same : changed.toValue = cell.toValue := by
            by_contra different
            exact spared ⟨moved, value, cell, changed, arrived, held, assigned, different⟩
          rw [Object.value?, Object.value?, read, held, Option.map_some, Option.map_some, same]

/-- A hydrator that renames one key to the name of an identity. -/
def aliasing : Hydrator := { ofRegistry [] with rules := Rules.rename [] "Alias" "Id" }

/-- The protected key is dropped, and the renamed one takes its place. -/
theorem aliasing_setValues : aliasing.setValues (.identity "id-0")
    [("Alias", .text "forged"), ("Id", .text "dropped")] = .complete (.identity "forged") := rfl

/-- An update under another name that overwrites the identity. -/
theorem value?_setValues_iff_aliasing :
    "Id" ∈ aliasing.settings.protectedFields ∧
    aliasing.setValues (.identity "id-0") [("Alias", .text "forged"), ("Id", .text "dropped")] =
      .complete (.identity "forged") ∧
    ((Object.identity "forged").value? "Id" = (Object.identity "id-0").value? "Id" ↔
      ¬ aliasing.Overwrites (.identity "id-0")
        [("Alias", .text "forged"), ("Id", .text "dropped")] "Id") :=
  ⟨by decide, aliasing_setValues, value?_setValues_iff (by decide) aliasing_setValues⟩

/-- Not every update that succeeds keeps the protected fields. -/
theorem renamed_key_overwrites_identity :
    ¬ ∀ (hydrator : Hydrator) (object final : Object) (values : Mapping) (name : String),
      name ∈ hydrator.settings.protectedFields →
      hydrator.setValues object values = .complete final →
      final.value? name = object.value? name := by
  intro kept
  have same := kept aliasing (.identity "id-0") (.identity "forged")
    [("Alias", .text "forged"), ("Id", .text "dropped")] "Id" (by decide) aliasing_setValues
  have read : some (Value.text "forged") = some (.text "id-0") := same
  simp at read

end TypedRecord.Hydrator
