import TypedRecord.Proofs.Changes
import TypedRecord.Proofs.Kinds

/-!
# Blank entities

What an entity is before anything is assigned is told by its type and its columns alone: it stays
when a column is replaced by one with the same blank, and a part of the blank entity is the blank of
that part. So an entity that is read into, wherever it comes from, starts the same.
-/
namespace TypedRecord

open Entries

/-- An entry that is replaced by one of the same image leaves the images. -/
theorem Entries.mapValues_replace {α β : Type} {change : α → β} {entries : Entries α} {key : String}
    {old new : α} (found : find? entries key = some old) (same : change new = change old) :
    mapValues change (replace entries key new) = mapValues change entries := by
  induction entries with
  | nil => rfl
  | cons entry rest ih =>
    obtain ⟨name, value⟩ := entry
    rw [find?] at found
    by_cases here : name = key
    · rw [if_pos here, Option.some.injEq] at found
      simp [replace, here, mapValues, same, found]
    · rw [if_neg here] at found
      have rest := ih found
      simp only [mapValues] at rest
      simp only [replace, here, ↓reduceIte, mapValues, List.map_cons, rest]

/-- Blank columns, one by one. -/
theorem Cell.resetColumns_eq_mapValues (columns : List (String × Cell)) :
    Cell.resetColumns columns = mapValues Cell.reset columns := by
  induction columns with
  | nil => rfl
  | cons column rest ih => simp only [resetColumns, ih, mapValues, List.map_cons]

/-- Contents of one form are the same before anything is loaded. -/
theorem Content.reset_congr {first second : Content} (form : first.form = second.form) :
    first.reset = second.reset := by
  cases first <;> cases second <;> cases form <;> rfl

namespace Object

mutual

/-- A column that is replaced by one with the same blank leaves the blank entity. -/
theorem reset_setCell (scope : Scope) {name : String} {cell changed : Cell}
    (same : changed.reset = cell.reset) :
    ∀ object : Object, object.cell? scope name = some cell →
      (object.setCell scope name changed).reset = object.reset
  | mk type columns mixins hidden, held => by
    rw [setCell_mk]
    cases own : find? columns name with
    | some found =>
      rw [cell?, own, Option.some_or, Option.some.injEq] at held
      subst held
      rw [if_pos (by rw [contains, own]; rfl), reset, reset, Cell.resetColumns_eq_mapValues,
        Cell.resetColumns_eq_mapValues columns, mapValues_replace own same]
    | none =>
      rw [if_neg (by simp [contains, own])]
      rw [cell?, own, Option.none_or] at held
      cases mixed : mixedCell? scope name mixins with
      | some found =>
        rw [mixed, Option.some_or, Option.some.injEq] at held
        subst held
        rw [if_pos (by rfl), reset, reset, resetMixins_setMixedCell scope same mixins mixed]
      | none =>
        rw [if_neg (by simp)]
        rw [mixed, Option.none_or] at held
        cases scope with
        | table => rfl
        | wire =>
          have kept := mapValues_replace held same
          rw [Scope.reveal] at kept
          simp only [reset, Cell.resetColumns_eq_mapValues, kept]

/-- A mixed in column that is replaced by one with the same blank leaves the blank entities. -/
theorem resetMixins_setMixedCell (scope : Scope) {name : String} {cell changed : Cell}
    (same : changed.reset = cell.reset) :
    ∀ mixins : List Object, mixedCell? scope name mixins = some cell →
      resetMixins (setMixedCell scope name changed mixins) = resetMixins mixins
  | [], _ => rfl
  | object :: rest, held => by
    rw [mixedCell?] at held
    rw [setMixedCell]
    cases first : object.cell? scope name with
    | some found =>
      rw [first, Option.some_or, Option.some.injEq] at held
      subst held
      rw [if_pos (by rfl), resetMixins, resetMixins, reset_setCell scope same object first]
    | none =>
      rw [first, Option.none_or] at held
      rw [if_neg (by simp), resetMixins, resetMixins, resetMixins_setMixedCell scope same rest held]

end

mutual

/-- A part of a blank entity is the blank of the part. -/
theorem component?_reset (ident : String) : ∀ object : Object,
    object.reset.component? ident = (object.component? ident).map reset
  | mk type columns mixins hidden => by
    rw [reset, component?, component?]
    split
    · rfl
    · exact mixedComponent?_resetMixins ident mixins

/-- A part of blank entities that are mixed in is the blank of the part. -/
theorem mixedComponent?_resetMixins (ident : String) : ∀ mixins : List Object,
    mixedComponent? ident (resetMixins mixins) = (mixedComponent? ident mixins).map reset
  | [] => rfl
  | object :: rest => by
    rw [resetMixins, mixedComponent?, mixedComponent?, Option.map_or, component?_reset ident object,
      mixedComponent?_resetMixins ident rest]

end

end Object

end TypedRecord
