import TypedRecord.Proofs.Progress
import TypedRecord.Proofs.Tables

/-!
# Changing one column after another

Replacing columns obeys the laws of writing to places: a column that is replaced by itself leaves
the entity, of two replacements of one column the second counts, and two columns may be replaced in
either order. Work that changes the columns of some names one after another, each by what it holds,
therefore leaves all other columns out: it may be done before or after another column is replaced,
two such works are one work when their changes are, and work that is repeated changes nothing more
when its changes do not.
-/
namespace TypedRecord.Object

open Entries

/-! ### Replacing columns -/

mutual

/-- A column of an entity that is replaced by itself leaves the entity. -/
theorem setCell_of_cell? (scope : Scope) {name : String} {cell : Cell} :
    ∀ object : Object, object.cell? scope name = some cell →
      object.setCell scope name cell = object
  | mk type columns mixins hidden, held => by
    rw [setCell_mk]
    cases own : find? columns name with
    | some found =>
      rw [cell?, own, Option.some_or, Option.some.injEq] at held
      subst held
      rw [if_pos (by rw [contains, own]; rfl), replace_of_find? own]
    | none =>
      rw [if_neg (by simp [contains, own])]
      cases mixed : mixedCell? scope name mixins with
      | some found =>
        rw [cell?, own, mixed, Option.none_or, Option.some_or, Option.some.injEq] at held
        subst held
        rw [if_pos (by rfl), setMixedCell_of_mixedCell? scope mixins mixed]
      | none =>
        rw [if_neg (by simp)]
        rw [cell?, own, mixed, Option.none_or, Option.none_or] at held
        cases scope with
        | table => rfl
        | wire =>
          rw [Scope.reveal] at held
          simp only [replace_of_find? held]

/-- A column of mixed in entities that is replaced by itself leaves them. -/
theorem setMixedCell_of_mixedCell? (scope : Scope) {name : String} {cell : Cell} :
    ∀ mixins : List Object, mixedCell? scope name mixins = some cell →
      setMixedCell scope name cell mixins = mixins
  | [], _ => rfl
  | object :: rest, held => by
    rw [mixedCell?] at held
    rw [setMixedCell]
    cases first : object.cell? scope name with
    | some found =>
      rw [first, Option.some_or, Option.some.injEq] at held
      subst held
      rw [if_pos (by rfl), setCell_of_cell? scope object first]
    | none =>
      rw [first, Option.none_or] at held
      rw [if_neg (by simp), setMixedCell_of_mixedCell? scope rest held]

end

mutual

/-- Of two replacements of one column of an entity the second counts. -/
theorem setCell_setCell (scope : Scope) (name : String) (first second : Cell) :
    ∀ object : Object, (object.setCell scope name first).setCell scope name second =
      object.setCell scope name second
  | mk type columns mixins hidden => by
    rw [setCell_mk, setCell_mk scope name second type columns]
    split
    · next own =>
      rw [setCell_mk, if_pos (by rwa [contains, isSome_find?_replace]), replace_replace]
    · next own =>
      split
      · next mixed =>
        rw [setCell_mk, if_neg own, if_pos (by rwa [isSome_mixedCell?_setMixedCell]),
          setMixedCell_setMixedCell scope name first second mixins]
      · next absent =>
        cases scope with
        | table => rw [setCell_mk, if_neg own, if_neg absent]
        | wire =>
          rw [setCell_mk, if_neg own, if_neg absent]
          simp only [replace_replace]

/-- Of two replacements of one column of mixed in entities the second counts. -/
theorem setMixedCell_setMixedCell (scope : Scope) (name : String) (first second : Cell) :
    ∀ mixins : List Object,
      setMixedCell scope name second (setMixedCell scope name first mixins) =
        setMixedCell scope name second mixins
  | [] => rfl
  | object :: rest => by
    rw [setMixedCell, setMixedCell]
    split
    · next held =>
      rw [setMixedCell, if_pos (by rwa [isSome_cell?_setCell]),
        setCell_setCell scope name first second object]
    · next absent =>
      rw [setMixedCell, if_neg absent, setMixedCell_setMixedCell scope name first second rest]

end

mutual

/-- Two columns of an entity may be replaced in either order. -/
theorem setCell_comm (scope : Scope) {name other : String} (first second : Cell)
    (different : name ≠ other) :
    ∀ object : Object, (object.setCell scope name first).setCell scope other second =
      (object.setCell scope other second).setCell scope name first
  | mk type columns mixins hidden => by
    -- Where a name has its column, own, mixed in or hidden, does not depend on the other one.
    have columnsSame : ∀ key value, contains (replace columns key value) = contains columns :=
      fun key value => funext fun sought => by rw [contains, contains, isSome_find?_replace]
    have mixinsSame : ∀ key sought value,
        (mixedCell? scope sought (setMixedCell scope key value mixins)).isSome =
          (mixedCell? scope sought mixins).isSome :=
      fun key sought value => isSome_mixedCell?_setMixedCell scope scope key sought value mixins
    by_cases own : contains columns name <;> by_cases otherOwn : contains columns other <;>
      by_cases mixed : (mixedCell? scope name mixins).isSome <;>
      by_cases otherMixed : (mixedCell? scope other mixins).isSome <;>
      cases scope <;>
      simp only [setCell_mk, own, otherOwn, mixed, otherMixed, columnsSame, mixinsSame,
        Bool.false_eq_true, ↓reduceIte, replace_comm columns first second different,
        replace_comm hidden first second different,
        setMixedCell_comm _ first second different mixins]

/-- Two columns of mixed in entities may be replaced in either order. -/
theorem setMixedCell_comm (scope : Scope) {name other : String} (first second : Cell)
    (different : name ≠ other) :
    ∀ mixins : List Object,
      setMixedCell scope other second (setMixedCell scope name first mixins) =
        setMixedCell scope name first (setMixedCell scope other second mixins)
  | [] => rfl
  | object :: rest => by
    by_cases held : (object.cell? scope name).isSome <;>
      by_cases otherHeld : (object.cell? scope other).isSome <;>
      simp only [setMixedCell, held, otherHeld, isSome_cell?_setCell, Bool.false_eq_true,
        ↓reduceIte,
        setCell_comm scope first second different object,
        setMixedCell_comm scope first second different rest]

end

/-! ### Changing columns -/

variable {changes : String → Cell → Progress Cell} {names : List String} {name : String}
  {object : Object}

/-- An entity with the column of a name changed by what it holds, when there is one. -/
def alterCell (changes : String → Cell → Progress Cell) (object : Object) (name : String) :
    Progress Object :=
  match object.cell? .wire name with
  | none => .complete object
  | some cell => (changes name cell).map (object.setCell .wire name)

/-- An entity with the columns of some names changed one after another, up to the first change that
is stopped. -/
def alter (changes : String → Cell → Progress Cell) (names : List String) (object : Object) :
    Progress Object :=
  Progress.each names (alterCell changes) object

/-- A change of one column comes before those of the others. -/
theorem alter_cons (changes : String → Cell → Progress Cell) (name : String) (rest : List String)
    (object : Object) :
    alter changes (name :: rest) object =
      (alterCell changes object name).andThen (alter changes rest) := rfl

/-- Nothing is changed where there is no column. -/
theorem alterCell_of_eq_none (absent : object.cell? .wire name = none) :
    alterCell changes object name = .complete object := by
  rw [alterCell, absent]

/-- A column is changed by what it holds. -/
theorem alterCell_of_eq_some {cell : Cell} (held : object.cell? .wire name = some cell) :
    alterCell changes object name = (changes name cell).map (object.setCell .wire name) := by
  rw [alterCell, held]

/-- A change leaves every other column. -/
theorem cell?_alterCell_of_ne {other : String} (different : name ≠ other) :
    (alterCell changes object name).state.cell? .wire other = object.cell? .wire other := by
  cases held : object.cell? .wire name with
  | none => rw [alterCell_of_eq_none held, Progress.complete]
  | some cell =>
    rw [alterCell_of_eq_some held]
    exact cell?_setCell_of_ne .wire _ different object

/-- Changes leave every column that none of them names. -/
theorem cell?_alter_of_notMem {other : String} (fresh : other ∉ names) :
    (alter changes names object).state.cell? .wire other = object.cell? .wire other := by
  induction names generalizing object with
  | nil => rfl
  | cons name rest ih =>
    obtain ⟨different, later⟩ := not_or.mp fun found => fresh (List.mem_cons.mpr found)
    have here := @cell?_alterCell_of_ne changes name object other (Ne.symm different)
    rw [alter_cons, Progress.andThen]
    split
    · rw [ih later, here]
    · exact here

/-- What holds of an entity and is kept by every replacement that a change makes holds after the
changes, wherever they are stopped. -/
theorem holds_alter {holds : Object → Prop}
    (kept : ∀ state, ∀ name ∈ names, ∀ cell, holds state → state.cell? .wire name = some cell →
      holds (state.setCell .wire name (changes name cell).state))
    (start : holds object) : holds (alter changes names object).state := by
  induction names generalizing object with
  | nil => exact start
  | cons name rest ih =>
    have first : holds (alterCell changes object name).state := by
      cases held : object.cell? .wire name with
      | none => rwa [alterCell_of_eq_none held]
      | some cell =>
        rw [alterCell_of_eq_some held]
        exact kept object name List.mem_cons_self cell start held
    rw [alter_cons, Progress.andThen]
    split
    · exact ih (fun state other member => kept state other (List.mem_cons_of_mem _ member)) first
    · exact first

/-- Another column may be replaced before or after a change. -/
theorem alterCell_setCell {other : String} (cell : Cell) (different : other ≠ name) :
    alterCell changes (object.setCell .wire other cell) name =
      (alterCell changes object name).map fun state => state.setCell .wire other cell := by
  have same := cell?_setCell_of_ne .wire cell different object
  cases held : object.cell? .wire name with
  | none =>
    rw [alterCell_of_eq_none held, alterCell_of_eq_none (same.trans held)]
    rfl
  | some found =>
    rw [alterCell_of_eq_some held, alterCell_of_eq_some (same.trans held)]
    simp only [Progress.map, setCell_comm .wire cell _ different object]

/-- A column that no change names may be replaced before or after the changes. -/
theorem alter_setCell {other : String} (cell : Cell) (fresh : other ∉ names) :
    alter changes names (object.setCell .wire other cell) =
      (alter changes names object).map fun state => state.setCell .wire other cell := by
  induction names generalizing object with
  | nil => rfl
  | cons name rest ih =>
    obtain ⟨different, later⟩ := not_or.mp fun found => fresh (List.mem_cons.mpr found)
    rw [alter_cons, alter_cons, alterCell_setCell cell different]
    exact Progress.map_andThen fun state => @ih state later

/-- Changes that do the same to the columns of an entity come to the same. -/
theorem alter_congr {others : String → Cell → Progress Cell} (distinct : names.Nodup)
    (same : ∀ name ∈ names, ∀ cell, object.cell? .wire name = some cell →
      changes name cell = others name cell) :
    alter changes names object = alter others names object := by
  induction names generalizing object with
  | nil => rfl
  | cons name rest ih =>
    obtain ⟨fresh, restDistinct⟩ := List.nodup_cons.mp distinct
    obtain ⟨here, later⟩ := List.forall_mem_cons.mp same
    have first : alterCell changes object name = alterCell others object name := by
      cases held : object.cell? .wire name with
      | none => rw [alterCell_of_eq_none held, alterCell_of_eq_none held]
      | some cell => rw [alterCell_of_eq_some held, alterCell_of_eq_some held, here cell held]
    rw [alter_cons, alter_cons, ← first]
    refine Progress.andThen_congr fun middle started => ih restDistinct ?_
    intro other member cell held
    have different : name ≠ other := fun equal => fresh (equal ▸ member)
    have unchanged := @cell?_alterCell_of_ne changes name object other different
    rw [started] at unchanged
    exact later other member cell (unchanged.symm.trans held)

/-- Changes that complete what other changes leave of every column complete what these leave of the
entity. -/
theorem alter_of_alter {second both : String → Cell → Progress Cell} (distinct : names.Nodup)
    (compose : ∀ name ∈ names, ∀ cell once twice, object.cell? .wire name = some cell →
      changes name cell = .complete once → second name once = .complete twice →
        both name cell = .complete twice)
    {middle final : Object} (started : alter changes names object = .complete middle)
    (finished : alter second names middle = .complete final) :
    alter both names object = .complete final := by
  induction names generalizing object middle with
  | nil =>
    cases started
    cases finished
    rfl
  | cons name rest ih =>
    obtain ⟨fresh, restDistinct⟩ := List.nodup_cons.mp distinct
    obtain ⟨here, later⟩ := List.forall_mem_cons.mp compose
    obtain ⟨reached, first, others⟩ := Progress.each_cons_eq_complete.mp started
    obtain ⟨reachedAgain, firstAgain, othersAgain⟩ := Progress.each_cons_eq_complete.mp finished
    have unchanged : middle.cell? .wire name = reached.cell? .wire name := by
      have kept := @cell?_alter_of_notMem changes rest reached name fresh
      rwa [alter, others] at kept
    cases held : object.cell? .wire name with
    | none =>
      rw [alterCell_of_eq_none held] at first
      cases first
      rw [alterCell_of_eq_none (unchanged.trans held)] at firstAgain
      cases firstAgain
      exact Progress.each_cons_eq_complete.mpr
        ⟨object, alterCell_of_eq_none held, ih restDistinct later others othersAgain⟩
    | some cell =>
      rw [alterCell_of_eq_some held] at first
      obtain ⟨once, changed, rfl⟩ := Progress.map_eq_complete.mp first
      rw [cell?_setCell_self .wire name once object (by rw [held]; rfl)] at unchanged
      rw [alterCell_of_eq_some unchanged] at firstAgain
      obtain ⟨twice, changedAgain, rfl⟩ := Progress.map_eq_complete.mp firstAgain
      have composed := here cell once twice held changed changedAgain
      -- The first changes of the other columns do not see that this one already has its last form.
      have moved : alter changes rest (object.setCell .wire name twice) =
          .complete (middle.setCell .wire name twice) := by
        rw [← setCell_setCell .wire name once twice, alter_setCell twice fresh, alter, others]
        rfl
      refine Progress.each_cons_eq_complete.mpr ⟨object.setCell .wire name twice, ?_, ?_⟩
      · rw [alterCell_of_eq_some held, composed]
        rfl
      · refine ih restDistinct ?_ moved othersAgain
        intro other member cell first last found
        have different : name ≠ other := fun equal => fresh (equal ▸ member)
        rw [cell?_setCell_of_ne .wire twice different] at found
        exact later other member cell first last found

/-- Changes that are made again come to the same, wherever they are stopped, when every one of them
does. -/
theorem alter_state_alter (distinct : names.Nodup)
    (repeats : ∀ name ∈ names, ∀ cell, object.cell? .wire name = some cell →
      changes name (changes name cell).state = changes name cell) :
    alter changes names (alter changes names object).state = alter changes names object := by
  induction names generalizing object with
  | nil => rfl
  | cons name rest ih =>
    obtain ⟨fresh, restDistinct⟩ := List.nodup_cons.mp distinct
    obtain ⟨here, later⟩ := List.forall_mem_cons.mp repeats
    cases held : object.cell? .wire name with
    | none =>
      have skipped : ∀ state : Object, state.cell? .wire name = none →
          alter changes (name :: rest) state = alter changes rest state := by
        intro state absent
        rw [alter_cons, alterCell_of_eq_none absent]
        rfl
      have absent := (@cell?_alter_of_notMem changes rest object name fresh).trans held
      rw [skipped object held, skipped _ absent, ih restDistinct later]
    | some cell =>
      have again := here cell held
      have present : ∀ left, (object.setCell .wire name left).cell? .wire name = some left :=
        fun left => cell?_setCell_self .wire name left object (by rw [held]; rfl)
      have opened : alter changes (name :: rest) object =
          ((changes name cell).map (object.setCell .wire name)).andThen (alter changes rest) := by
        rw [alter_cons, alterCell_of_eq_some held]
      rw [opened]
      cases change : changes name cell with
      | mk left stopped =>
        rw [change] at again
        cases stopped with
        | some error =>
          simp only [Progress.map, Progress.andThen]
          rw [alter_cons, alterCell_of_eq_some (present left), again]
          simp only [Progress.map, Progress.andThen, setCell_setCell]
        | none =>
          have kept : (alter changes rest (object.setCell .wire name left)).state.cell? .wire name =
              some left := (cell?_alter_of_notMem fresh).trans (present left)
          have unseen : ∀ other ∈ rest, ∀ cell,
              (object.setCell .wire name left).cell? .wire other = some cell →
                changes other (changes other cell).state = changes other cell := by
            intro other member cell found
            have different : name ≠ other := fun equal => fresh (equal ▸ member)
            rw [cell?_setCell_of_ne .wire left different] at found
            exact later other member cell found
          simp only [Progress.map, Progress.andThen]
          rw [alter_cons, alterCell_of_eq_some kept, again]
          simp only [Progress.map, Progress.andThen, setCell_of_cell? .wire _ kept]
          exact ih restDistinct unseen

end TypedRecord.Object
