import TypedRecord.Hydration
import TypedRecord.Proofs.Columns
import TypedRecord.Proofs.Progress

/-!
# What an assignment leaves in each column

Entries are assigned one after another, and the names decide what each of them may touch. The value
that arrives under a name is the processed value of its entry unless that is null; after a complete
run the column of a name holds what the value that arrived there makes of it, and a column where
nothing arrived is as it was.
-/
namespace TypedRecord.Hydrator

open Entries

variable {hydrator : Hydrator} {build : String → Mapping → Except Error Object}

/-- An entity is built when its name makes a blank one that can be assigned the values. -/
theorem buildWith_eq_ok {assign : Object → Mapping → Progress Object} {name : String}
    {values : Mapping} {built : Object} :
    hydrator.buildWith assign name values = .ok built ↔
      ∃ blank, hydrator.registry.create name = .ok blank ∧ blank.type.hydratable = true ∧
        assign blank values = .complete built := by
  cases made : hydrator.registry.create name with
  | error error => simp [buildWith, made]
  | ok blank =>
    by_cases hydratable : blank.type.hydratable
    · simp [buildWith, made, hydratable, Progress.result_eq_ok]
    · simp [buildWith, made, hydratable]

/-- An entity is nested when a map builds one of the type that is declared. -/
theorem nest_eq_ok {declared : Declared} {key : String} {value : Value} {built : Object} :
    nest build declared key value = .ok built ↔
      ∃ entries, value = .map entries ∧ build declared.name entries = .ok built ∧
        built.type.ident = declared.ident := by
  cases value with
  | map entries =>
    cases made : build declared.name entries with
    | error error => simp [nest, made]
    | ok object =>
      by_cases same : object.type.ident = declared.ident
      · simp only [nest, made, Object.downcast, same, ↓reduceIte, Except.ok.injEq, Value.map.injEq,
          exists_eq_left']
        constructor
        · rintro rfl
          exact ⟨rfl, same⟩
        · exact And.left
      · simp only [nest, made, Object.downcast, same, ↓reduceIte, reduceCtorEq, Value.map.injEq,
          exists_eq_left', Except.ok.injEq, false_iff, not_and]
        rintro rfl
        exact same
  | _ => simp [nest]

/-- The value that processing leaves to be assigned under a key; null is not assigned. -/
def arriving? (hydrator : Hydrator) (key : String) (raw : Value) : Option Value :=
  match hydrator.process key raw with
  | .ok value => if value.isNull then none else some value
  | .error _ => none

/-- The value that a mapping has to assign under a name. -/
def arrival? (hydrator : Hydrator) (values : Mapping) (name : String) : Option Value :=
  (find? values name).bind (hydrator.arriving? name)

/-- What stands in the column of a name once a value has arrived there, or none has. A value that
arrives where there is no column changes nothing. -/
def landed (build : String → Mapping → Except Error Object) (name : String) :
    Option Value → Option Cell → Except Error (Option Cell)
  | some value, some cell => (assignCell build name value cell).map some
  | _, cell => .ok cell

/-- A complete assignment of one entry leaves in every column what arrived there. -/
theorem landed_of_assignEntry {object next : Object} {key : String} {raw : Value}
    (done : hydrator.assignEntry build object (key, raw) = .complete next) (name : String) :
    landed build name (if key = name then hydrator.arriving? key raw else none)
      (object.cell? .table name) = .ok (next.cell? .table name) := by
  simp only [assignEntry] at done
  cases processed : hydrator.process key raw with
  | error error => simp [processed, Progress.stop, Progress.complete] at done
  | ok value =>
    simp only [processed, assignValue] at done
    have arrived : hydrator.arriving? key raw = if value.isNull then none else some value := by
      simp [arriving?, processed]
    by_cases null : value.isNull
    · simp only [null, ↓reduceIte, Progress.complete, Progress.mk.injEq, and_true] at done
      subst done
      simp [arrived, null, landed]
    · simp only [null, Bool.false_eq_true, ↓reduceIte] at done arrived
      cases held : object.cell? .table key with
      | none =>
        simp only [held] at done
        have same : next = object := by
          split at done
          · exact (congrArg Progress.state done).symm
          · simp [Progress.stop, Progress.complete] at done
        subst same
        by_cases here : key = name
        · subst here
          simp [held, arrived, landed]
        · simp [here, landed]
      | some cell =>
        simp only [held, Progress.ofStep_eq_complete] at done
        cases assigned : assignCell build key value cell with
        | error error => simp [assigned, Except.map] at done
        | ok changed =>
          simp only [assigned, Except.map, Except.ok.injEq] at done
          subst done
          rw [Object.cell?_setCell .table key name changed object (by simp [held])]
          by_cases here : key = name
          · subst here
            simp [held, arrived, landed, assigned, Except.map]
          · simp [here, landed]

/-- A complete assignment of entries leaves every column alone that none of them names. -/
theorem cell?_of_assigned {entries : Mapping} {object final : Object} {name : String}
    (done : Progress.each entries (hydrator.assignEntry build) object = .complete final)
    (unnamed : find? entries name = none) : final.cell? .table name = object.cell? .table name := by
  induction entries generalizing object with
  | nil => rw [Progress.each_nil_eq_complete.mp done]
  | cons entry rest ih =>
    obtain ⟨key, raw⟩ := entry
    obtain ⟨middle, first, later⟩ := Progress.each_cons_eq_complete.mp done
    have different : key ≠ name := find?_eq_none_iff.mp unnamed (key, raw) List.mem_cons_self
    have step := landed_of_assignEntry first name
    simp only [different, ↓reduceIte, landed, Except.ok.injEq] at step
    simp only [find?, different, ↓reduceIte] at unnamed
    rw [ih later unnamed, step]

/-- A complete assignment of a sorted mapping leaves in every column what arrived there. -/
theorem landed_of_assigned {values : Mapping} (sorted : Sorted values) {object final : Object}
    (done : Progress.each values (hydrator.assignEntry build) object = .complete final)
    (name : String) :
    landed build name (hydrator.arrival? values name) (object.cell? .table name) =
      .ok (final.cell? .table name) := by
  induction values generalizing object with
  | nil =>
    rw [Progress.each_nil_eq_complete.mp done]
    simp [arrival?, find?, landed]
  | cons entry rest ih =>
    obtain ⟨key, raw⟩ := entry
    obtain ⟨middle, first, later⟩ := Progress.each_cons_eq_complete.mp done
    have step := landed_of_assignEntry first name
    by_cases here : key = name
    · -- The keys are distinct, so no later entry touches this column again.
      subst here
      have absent : find? rest key = none := find?_eq_none_iff.mpr fun other member =>
        ne_of_gt (sorted.head_lt member)
      rw [cell?_of_assigned later absent]
      simpa [arrival?, find?] using step
    · simp only [here, ↓reduceIte, landed, Except.ok.injEq] at step
      have restStep := ih sorted.tail later
      rw [← step] at restStep
      simpa [arrival?, find?, here] using restStep

end TypedRecord.Hydrator
