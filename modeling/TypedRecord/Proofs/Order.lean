import TypedRecord.Hydration
import TypedRecord.Proofs.Moves

/-!
# Maps in order at every level

A mapping is ordered when its keys and those of every map inside it are in ascending order, as they
are in every mapping that a program holds. Putting a value at a path keeps that, and so does
renaming.
-/
namespace TypedRecord

open Entries

/-- Whether the keys of a mapping and those of every map inside it are in ascending order. -/
abbrev Mapping.Ordered (mapping : Mapping) : Prop := (Value.map mapping).Sorted

namespace Mapping

/-- An empty mapping is ordered. -/
theorem ordered_nil : Ordered [] := ⟨List.Pairwise.nil, trivial⟩

/-- What stands under a key of an ordered mapping is in order. -/
theorem Ordered.sorted_of_find? {mapping : Mapping} (ordered : mapping.Ordered) {key : String}
    {value : Value} (found : find? mapping key = some value) : value.Sorted :=
  Value.sortedEntries_iff.mp ordered.2 (key, value) (mem_of_find? found)

/-- An ordered mapping stays ordered when entries are left out. -/
theorem Ordered.sublist {part mapping : Mapping} (ordered : mapping.Ordered)
    (within : part.Sublist mapping) : part.Ordered :=
  ⟨List.Pairwise.sublist within ordered.1, Value.sortedEntries_iff.mpr fun entry member =>
    Value.sortedEntries_iff.mp ordered.2 entry (within.subset member)⟩

/-- An ordered mapping stays ordered when a value in order is inserted. -/
theorem Ordered.insert {mapping : Mapping} (ordered : mapping.Ordered) (key : String)
    {value : Value} (sorted : value.Sorted) : Ordered (Entries.insert mapping key value) := by
  refine ⟨ordered.1.insert key value, Value.sortedEntries_iff.mpr fun entry member => ?_⟩
  rcases mem_insert member with rfl | before
  · exact sorted
  · exact Value.sortedEntries_iff.mp ordered.2 entry before

/-- An ordered mapping stays ordered when a value in order is put below segments. -/
theorem Ordered.insertAt {mapping : Mapping} (ordered : mapping.Ordered) (first : String)
    (others : List String) {value : Value} (sorted : value.Sorted) :
    Ordered (mapping.insertAt first others value) := by
  induction others generalizing mapping first with
  | nil => exact ordered.insert first sorted
  | cons next rest ih =>
    rw [Mapping.insertAt]
    refine ordered.insert first (ih ?_ next)
    split
    · next entries found => exact ordered.sorted_of_find? found
    · exact ordered_nil

/-- Values in order that are put at paths make an ordered mapping. -/
theorem ordered_ofPaths {entries : List (String × Value)}
    (sorted : ∀ entry ∈ entries, entry.2.Sorted) : Ordered (ofPaths entries) := by
  suffices kept : ∀ mapping : Mapping, mapping.Ordered →
      Ordered (entries.foldl (fun held entry => insertPath held entry.1 entry.2) mapping) from
    kept [] ordered_nil
  induction entries with
  | nil => exact fun _ ordered => ordered
  | cons entry rest ih =>
    obtain ⟨first, later⟩ := List.forall_mem_cons.mp sorted
    exact fun mapping ordered => ih later _ (ordered.insertAt _ _ first)

end Mapping

namespace Rules

/-- The values that are put into a renamed mapping are in order when what they come from is. -/
theorem ordered_apply_of {rules : Rules} {data : Mapping}
    (sorted : ∀ entry ∈ data, (applyInside (rules.rule entry.1).nested entry.2).Sorted) :
    (rules.apply data).Ordered := by
  apply Mapping.ordered_ofPaths
  intro moved member
  rw [moved_eq_map] at member
  obtain ⟨entry, held, rfl⟩ := List.mem_map.mp member
  exact sorted entry held

/-- Rules keep what they reach inside a value in order. -/
theorem sorted_applyInside {value : Value} (rules : Rules) (sorted : value.Sorted) :
    (applyInside rules value).Sorted := by
  induction value using Value.induction generalizing rules with
  | map entries ih =>
    rw [applyInside]
    split
    · exact sorted
    · exact ordered_apply_of fun entry member =>
        ih entry member _ (Value.sortedEntries_iff.mp sorted.2 entry member)
  | _ => exact sorted

end Rules

/-- Renaming keeps a mapping ordered. -/
theorem Hydrator.ordered_rename (hydrator : Hydrator) {data : Mapping} (ordered : data.Ordered) :
    (hydrator.rename data).Ordered := by
  rw [rename]
  split
  · exact ordered
  · exact Rules.ordered_apply_of fun entry member =>
      Rules.sorted_applyInside _ (Value.sortedEntries_iff.mp ordered.2 entry member)

end TypedRecord
