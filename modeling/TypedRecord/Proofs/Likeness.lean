import TypedRecord.Proofs.Agreement

/-!
# Hydrations that start alike

Two registries may make entities that differ, such as in ids that are generated anew each time. Main
statement: assigning a mapping with one of them succeeds exactly when it succeeds with the other
one, and what is assigned to entities that are alike leaves them alike.
-/
namespace TypedRecord

open Entries

/-! ### Related runs -/

namespace Progress

variable {α β : Type} {items : List β} {step other : α → β → Progress α}
  {related : α → α → Prop} {first second : α}

/-- Runs whose steps leave related states of related ones, or nothing of either, do so as well. -/
theorem rel_each
    (steps : ∀ item ∈ items, ∀ left right, related left right →
      Option.Rel related (step left item).final? (other right item).final?)
    (start : related first second) :
    Option.Rel related (each items step first).final? (each items other second).final? := by
  induction items generalizing first second with
  | nil => exact .some start
  | cons item rest ih =>
    obtain ⟨here, later⟩ := List.forall_mem_cons.mp steps
    have started := here first second start
    rw [each, each]
    cases left : step first item with
    | mk firstNext firstStopped =>
      cases right : other second item with
      | mk secondNext secondStopped =>
        rw [left, right] at started
        cases firstStopped <;> cases secondStopped <;> cases started
        · next next => exact ih later next
        · exact .none

/-- The result of work is what it leaves, if it is complete. -/
theorem toOption_result (progress : Progress α) : progress.result.toOption = progress.final? := by
  obtain ⟨state, stopped⟩ := progress
  cases stopped <;> rfl

/-- A step that changes the state or fails leaves what it changes it to. -/
theorem final?_ofStep (state : α) (outcome : Except Error α) :
    (ofStep state outcome).final? = outcome.toOption := by
  cases outcome <;> rfl

end Progress

/-- A change of an outcome changes what it may be. -/
theorem toOption_map {α β : Type} (change : α → β) (outcome : Except Error α) :
    (outcome.map change).toOption = outcome.toOption.map change := by
  cases outcome <;> rfl

variable {same : String → Content → Content → Prop}

mutual

/-- An entity is like itself. -/
theorem Object.alike_refl (reflexive : ∀ name content, same name content content) :
    ∀ object : Object, Object.Alike same object object
  | .mk type columns mixins hidden => .mk rfl rfl fun name left right leftHeld rightHeld => by
    cases leftHeld.symm.trans rightHeld
    simp only [Object.cell?, Scope.reveal, find?, Option.or_none, Option.or_eq_some_iff] at leftHeld
    obtain own | ⟨-, mixed⟩ := leftHeld
    · exact Cell.alike_of_find? reflexive columns own
    · exact Object.alike_of_mixedCell? reflexive mixins mixed

/-- What a column holds is like itself. -/
theorem Cell.alike_refl (reflexive : ∀ name content, same name content content) (name : String) :
    ∀ cell : Cell, Cell.Alike same name cell cell
  | .plain content => .plain (reflexive name content)
  | .entity _ object => .entity (Object.alike_refl reflexive object)
  | .vacant _ => .vacant

/-- A column that is found among some is like itself. -/
theorem Cell.alike_of_find? (reflexive : ∀ name content, same name content content) {name : String}
    {cell : Cell} : ∀ columns : List (String × Cell), find? columns name = some cell →
      Cell.Alike same name cell cell
  | (key, held) :: rest, found => by
    rw [find?] at found
    split at found
    · exact Option.some.inj found ▸ Cell.alike_refl reflexive name held
    · exact Cell.alike_of_find? reflexive rest found

/-- A column that is found in mixed in entities is like itself. -/
theorem Object.alike_of_mixedCell? (reflexive : ∀ name content, same name content content)
    {name : String} {cell : Cell} : ∀ mixins : List Object,
      Object.mixedCell? .table name mixins = some cell → Cell.Alike same name cell cell
  | object :: rest, found => by
    rw [Object.mixedCell?, Option.or_eq_some_iff] at found
    obtain here | ⟨-, later⟩ := found
    · exact (Object.alike_refl reflexive object).cell here here
    · exact Object.alike_of_mixedCell? reflexive rest later

end

/-- Entities that are alike are so with columns that are alike in place of others. -/
theorem Object.Alike.setCell {first second : Object} {name : String}
    {firstCell secondCell : Cell} (alike : Object.Alike same first second)
    (firstHeld : (first.cell? .table name).isSome)
    (cells : Cell.Alike same name firstCell secondCell) :
    Object.Alike same (first.setCell .table name firstCell)
      (second.setCell .table name secondCell) := by
  have secondHeld := alike.isSome_cell? name ▸ firstHeld
  refine .mk ?_ ?_ fun other left right leftHeld rightHeld => ?_
  · rw [type_setCell, type_setCell, alike.type_eq]
  · rw [names_setCell, names_setCell, alike.names_eq]
  · rw [cell?_setCell _ _ _ _ _ firstHeld] at leftHeld
    rw [cell?_setCell _ _ _ _ _ secondHeld] at rightHeld
    split at leftHeld
    · next here =>
      rw [if_pos here] at rightHeld
      cases leftHeld
      cases rightHeld
      exact here ▸ cells
    · next elsewhere =>
      rw [if_neg elsewhere] at rightHeld
      exact alike.cell leftHeld rightHeld

/-- Registries are alike when what they make of any name is alike, or neither makes anything of
it. -/
def Registry.Alike (same : String → Content → Content → Prop) (first second : Registry) : Prop :=
  ∀ name, Option.Rel (Object.Alike same) (first.create name).toOption
    (second.create name).toOption

namespace Hydrator

/-- A hydrator with another registry. -/
def withRegistry (hydrator : Hydrator) (registry : Registry) : Hydrator :=
  { hydrator with registry }

variable {hydrator : Hydrator} {registry : Registry}
  {build other : String → Mapping → Except Error Object}

/-- What is built with registries that are alike is alike, when what is assigned is. -/
theorem rel_buildWith {assign again : Object → Mapping → Progress Object}
    (alike : Registry.Alike same hydrator.registry registry)
    (assigns : ∀ first second entries, Object.Alike same first second →
      Option.Rel (Object.Alike same) (assign first entries).final? (again second entries).final?)
    (name : String) (entries : Mapping) :
    Option.Rel (Object.Alike same) (hydrator.buildWith assign name entries).toOption
      ((hydrator.withRegistry registry).buildWith again name entries).toOption := by
  have blanks := alike name
  rw [buildWith, buildWith, withRegistry]
  cases left : hydrator.registry.create name <;> cases right : registry.create name <;>
    rw [left, right] at blanks <;> cases blanks
  · exact .none
  · next first second blanks =>
    simp only [blanks.type_eq]
    split
    · rw [Progress.toOption_result, Progress.toOption_result]
      exact assigns first second entries blanks
    · exact .none

/-- An entity that is nested is like one that is nested when those that are built are alike. -/
theorem rel_nest
    (builds : ∀ name entries, Option.Rel (Object.Alike same) (build name entries).toOption
      (other name entries).toOption) (declared : Declared) (key : String) (value : Value) :
    Option.Rel (Object.Alike same) (nest build declared key value).toOption
      (nest other declared key value).toOption := by
  cases value with
  | map entries =>
    have built := builds declared.name entries
    rw [nest, nest]
    cases left : build declared.name entries <;> cases right : other declared.name entries <;>
      rw [left, right] at built <;> cases built
    · exact .none
    · next first second built =>
      simp only [Object.downcast, built.type_eq]
      split
      · exact .some built
      · exact .none
  | _ => exact .none

/-- What is assigned to columns that are alike is alike, when what is built for them is. -/
theorem rel_assignCell (reflexive : ∀ name content, same name content content)
    (formed : ∀ name first second, same name first second → first.form = second.form)
    (builds : ∀ name entries, Option.Rel (Object.Alike same) (build name entries).toOption
      (other name entries).toOption)
    {key : String} {first second : Cell} (alike : Cell.Alike same key first second)
    (value : Value) :
    Option.Rel (Cell.Alike same key) (assignCell? build key value first)
      (assignCell? other key value second) := by
  rw [assignCell?, assignCell?]
  cases alike with
  | plain content =>
    rw [assignCell, assignCell, Content.load_congr (formed key _ _ content)]
    cases Content.load key value _ with
    | error error => exact .none
    | ok loaded => exact .some (.plain (reflexive key loaded))
  | entity | vacant =>
    rw [assignCell, assignCell, toOption_map, toOption_map]
    exact rel_map (rel_nest builds _ key value) fun _ _ nested => .entity nested

/-- An entry is assigned to entities that are alike or to neither, when what is built for it is
alike. -/
theorem rel_assignEntry (reflexive : ∀ name content, same name content content)
    (formed : ∀ name first second, same name first second → first.form = second.form)
    (builds : ∀ name entries, Option.Rel (Object.Alike same) (build name entries).toOption
      (other name entries).toOption)
    {first second : Object} (alike : Object.Alike same first second) (entry : String × Value) :
    Option.Rel (Object.Alike same) (hydrator.assignEntry build first entry).final?
      ((hydrator.withRegistry registry).assignEntry other second entry).final? := by
  obtain ⟨key, raw⟩ := entry
  show Option.Rel _ (hydrator.assignEntry build first (key, raw)).final?
    (hydrator.assignEntry other second (key, raw)).final?
  rw [assignEntry, assignEntry]
  cases hydrator.process key raw with
  | error error => exact .none
  | ok value =>
    simp only [assignValue]
    split
    · exact .some alike
    · have both := alike.isSome_cell? key
      cases firstHeld : first.cell? .table key <;> cases secondHeld : second.cell? .table key <;>
        rw [firstHeld, secondHeld] at both <;> try cases both
      · simp only
        split
        · exact .some alike
        · exact .none
      · simp only [Progress.final?_ofStep, toOption_map]
        refine rel_map (rel_assignCell reflexive formed builds
          (alike.cell firstHeld secondHeld) value) fun _ _ cells => ?_
        exact alike.setCell (by rw [firstHeld]; rfl) cells

/-- Assignments with registries that are alike leave alike what was, or leave nothing of either. -/
theorem rel_assign (reflexive : ∀ name content, same name content content)
    (formed : ∀ name first second, same name first second → first.form = second.form)
    (alike : Registry.Alike same hydrator.registry registry) (levels : Nat) {first second : Object}
    (start : Object.Alike same first second) (values : Mapping) :
    Option.Rel (Object.Alike same) (hydrator.assign levels first values).final?
      ((hydrator.withRegistry registry).assign levels second values).final? := by
  induction levels generalizing first second values with
  | zero => exact .none
  | succ levels ih =>
    refine Progress.rel_each ?_ start
    intro entry _ left right related
    exact rel_assignEntry reflexive formed
      (rel_buildWith alike fun _ _ entries blanks => ih blanks entries) related entry

end Hydrator

end TypedRecord
