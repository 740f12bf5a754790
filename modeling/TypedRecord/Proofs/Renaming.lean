import TypedRecord.Proofs.Entries
import TypedRecord.Renaming.Apply

/-!
# Where renamed entries go

Putting a value at a path changes the entry of its first segment only and keeps the keys in order.
So a renamed mapping is sorted, and its keys are first segments of the targets of the keys that were
renamed.
-/
namespace TypedRecord

open Entries

namespace Mapping

/-- Putting a value below segments puts some value under the first of them. -/
theorem insertAt_eq_insert (mapping : Mapping) (first : String) (others : List String)
    (value : Value) : ∃ placed, mapping.insertAt first others value =
      Entries.insert mapping first placed := by
  cases others with
  | nil => exact ⟨value, rfl⟩
  | cons next rest => exact ⟨_, rfl⟩

/-- Putting a value at a path puts some value under the first segment. -/
theorem insertPath_eq_insert (mapping : Mapping) (path : String) (value : Value) :
    ∃ placed, mapping.insertPath path value =
      Entries.insert mapping (Path.segments path).1 placed :=
  mapping.insertAt_eq_insert (Path.segments path).1 (Path.segments path).2 value

/-- Putting a value at a path touches no other key than the first segment. -/
theorem find?_insertPath_of_ne (mapping : Mapping) {path name : String} (value : Value)
    (different : (Path.segments path).1 ≠ name) :
    find? (mapping.insertPath path value) name = find? mapping name := by
  obtain ⟨placed, insertion⟩ := mapping.insertPath_eq_insert path value
  rw [insertion, find?_insert_of_ne mapping placed different]

/-- Putting a value at a path keeps the keys in order. -/
theorem sorted_insertPath {mapping : Mapping} (sorted : Sorted mapping) (path : String)
    (value : Value) : Sorted (mapping.insertPath path value) := by
  obtain ⟨placed, insertion⟩ := mapping.insertPath_eq_insert path value
  rw [insertion]
  exact sorted.insert _ placed

/-- Values put at paths are found only under first segments of the paths. -/
theorem find?_ofPaths_eq_none {entries : List (String × Value)} {name : String}
    (elsewhere : ∀ entry ∈ entries, (Path.segments entry.1).1 ≠ name) :
    find? (ofPaths entries) name = none := by
  suffices kept : ∀ mapping : Mapping,
      find? (entries.foldl (fun held entry => insertPath held entry.1 entry.2) mapping) name =
        find? mapping name from kept []
  induction entries with
  | nil => exact fun _ => rfl
  | cons entry rest ih =>
    intro mapping
    rw [List.foldl_cons, ih (fun later member => elsewhere later (List.mem_cons_of_mem _ member)),
      find?_insertPath_of_ne mapping entry.2 (elsewhere entry List.mem_cons_self)]

/-- Values put at paths make a sorted mapping. -/
theorem sorted_ofPaths (entries : List (String × Value)) : Sorted (ofPaths entries) := by
  suffices kept : ∀ mapping : Mapping, Sorted mapping →
      Sorted (entries.foldl (fun held entry => insertPath held entry.1 entry.2) mapping) from
    kept [] List.Pairwise.nil
  induction entries with
  | nil => exact fun _ sorted => sorted
  | cons entry rest ih => exact fun mapping sorted => ih _ (sorted_insertPath sorted _ _)

end Mapping

namespace Rules

/-- The entries that are put into the renamed mapping, one by one. -/
theorem moved_eq_map (rules : Rules) (data : Mapping) :
    rules.moved data = data.map fun entry =>
      (rules.target entry.1, applyInside (rules.rule entry.1).nested entry.2) := by
  induction data with
  | nil => rfl
  | cons entry rest ih => simp [moved, ih]

/-- The targets of moved entries are those of their keys. -/
theorem map_fst_moved (rules : Rules) (data : Mapping) :
    (rules.moved data).map Prod.fst = data.map fun entry => rules.target entry.1 := by
  rw [moved_eq_map, List.map_map]
  rfl

end Rules

end TypedRecord
