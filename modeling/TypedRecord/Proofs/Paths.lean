import TypedRecord.Proofs.Entries
import TypedRecord.Value.Path

/-!
# What is found along a path

A path leads from a value through the maps inside it. Putting a value at a path is told by what is
found along every path afterwards: the new value and what is inside it along the path itself and
its extensions, and what was there before along every path that parts from it. Paths that part from
each other can therefore be filled one after another, and nothing put at one of them disturbs what
was put at another.
-/
namespace TypedRecord

open Entries

namespace Path

/-- The segments between the dots of a text, as one list. -/
def parts (path : String) : List String := (segments path).1 :: (segments path).2

/-- Two paths part when neither of them is the beginning of the other. -/
def Apart (first second : List String) : Prop := ¬ first <+: second ∧ ¬ second <+: first

instance (first second : List String) : Decidable (Apart first second) :=
  inferInstanceAs (Decidable (_ ∧ _))

/-- Parting does not depend on the order of the paths. -/
theorem Apart.symm {first second : List String} (apart : Apart first second) :
    Apart second first := ⟨apart.2, apart.1⟩

/-- A path that parts from another one parts from its extensions. -/
theorem Apart.append {first second : List String} (apart : Apart first second)
    (rest : List String) : Apart first (second ++ rest) := by
  constructor
  · intro within
    rcases List.prefix_or_prefix_of_prefix within (List.prefix_append second rest) with one | two
    · exact apart.1 one
    · exact apart.2 two
  · intro beyond
    exact apart.2 ((List.prefix_append second rest).trans beyond)

/-- Paths with the same first segment part where what follows it does. -/
theorem apart_cons_iff {key : String} {first second : List String} :
    Apart (key :: first) (key :: second) ↔ Apart first second := by
  simp [Apart, List.cons_prefix_cons]

/-- A path that parts from another one is not empty. -/
theorem Apart.ne_nil {first second : List String} (apart : Apart first second) : second ≠ [] := by
  rintro rfl
  exact apart.2 List.nil_prefix

/-- No segment holds a dot. -/
theorem notMem_split (text : List Char) :
    '.' ∉ (split text).1 ∧ ∀ segment ∈ (split text).2, '.' ∉ segment := by
  induction text with
  | nil => simp [split]
  | cons c rest ih =>
    obtain ⟨first, others⟩ := ih
    by_cases dot : c = '.'
    · simpa [split, dot] using ⟨first, others⟩
    · simpa [split, dot, Ne.symm dot] using ⟨first, others⟩

/-- A text without dots is its only segment. -/
theorem split_of_notMem {text : List Char} (dotless : '.' ∉ text) : split text = (text, []) := by
  induction text with
  | nil => rfl
  | cons c rest ih =>
    rw [List.mem_cons, not_or] at dotless
    simp [split, ih dotless.2, Ne.symm dotless.1]

/-- The first segment of a path holds no dot. -/
theorem notMem_segments (path : String) : '.' ∉ (segments path).1.toList := by
  have first := (notMem_split path.toList).1
  simpa [segments] using first

/-- No part of a path holds a dot. -/
theorem notMem_parts (path : String) : ∀ key ∈ parts path, '.' ∉ key.toList := by
  obtain ⟨first, others⟩ := notMem_split path.toList
  simpa [parts, segments] using ⟨first, others⟩

/-- A path without dots is its only segment. -/
theorem segments_of_notMem {path : String} (dotless : '.' ∉ path.toList) :
    segments path = (path, []) := by
  simp [segments, split_of_notMem dotless]

/-- A path without dots has one part. -/
theorem parts_of_notMem {path : String} (dotless : '.' ∉ path.toList) : parts path = [path] := by
  rw [parts, segments_of_notMem dotless]

/-- A text is cut at its first dot. -/
theorem split_append_dot {first : List Char} (dotless : '.' ∉ first) (rest : List Char) :
    split (first ++ '.' :: rest) = (first, (split rest).1 :: (split rest).2) := by
  induction first with
  | nil => simp [split]
  | cons c others ih =>
    rw [List.mem_cons, not_or] at dotless
    simp [split, ih dotless.2, Ne.symm dotless.1]

/-- A text without dots is the first part of the path that a dot makes of it and another text. -/
theorem parts_append_dot_append {first : String} (dotless : '.' ∉ first.toList) (rest : String) :
    parts (first ++ "." ++ rest) = first :: parts rest := by
  have text : (first ++ "." ++ rest).toList = first.toList ++ '.' :: rest.toList := by simp
  rw [parts, segments, text, split_append_dot dotless]
  simp [parts, segments]

/-- Two texts without dots are the parts of the path that a dot makes of them. -/
theorem parts_append_dot {first second : String} (firstDotless : '.' ∉ first.toList)
    (secondDotless : '.' ∉ second.toList) : parts (first ++ "." ++ second) = [first, second] := by
  rw [parts_append_dot_append firstDotless, parts_of_notMem secondDotless]

/-- Texts without dots are the parts of the path that dots make of them. -/
theorem parts_intercalate {path : List String} (nonempty : path ≠ [])
    (dotless : ∀ key ∈ path, '.' ∉ key.toList) : parts (".".intercalate path) = path := by
  induction path with
  | nil => exact absurd rfl nonempty
  | cons key rest ih =>
    obtain ⟨first, others⟩ := List.forall_mem_cons.mp dotless
    cases rest with
    | nil => rw [String.intercalate_singleton, parts_of_notMem first]
    | cons next rest =>
      rw [String.intercalate_cons_cons, parts_append_dot_append first, ih (by simp) others]

/-- A text is what a dot between its segments makes of them. -/
theorem intercalate_split (text : List Char) :
    ['.'].intercalate ((split text).1 :: (split text).2) = text := by
  induction text with
  | nil => rfl
  | cons c rest ih =>
    by_cases dot : c = '.'
    · simpa [split, dot, List.intercalate] using ih
    · cases others : (split rest).2 <;>
        simpa [split, dot, List.intercalate, others] using ih

/-- A path is what dots make of its parts. -/
theorem intercalate_parts (path : String) : ".".intercalate (parts path) = path := by
  rw [← String.toList_inj, String.toList_intercalate, parts, segments]
  simpa [Function.comp_def] using intercalate_split path.toList

/-- A path that goes on from another one comes after it in order. -/
theorem lt_of_parts_eq_append {first second : String} {below : List String}
    (further : parts second = parts first ++ below) (nonempty : below ≠ []) : first < second := by
  have longer : parts first ≠ [] := List.cons_ne_nil _ _
  have joined : second = first ++ ("." ++ ".".intercalate below) := by
    rw [← intercalate_parts second, further,
      String.intercalate_append_of_ne_nil longer nonempty, intercalate_parts, String.append_assoc]
  have after : first.toList ++ [] < first.toList ++ ('.' :: (".".intercalate below).toList) :=
    List.append_left_lt (List.nil_lt_cons _ _)
  rw [joined, String.lt_iff_toList_lt]
  simpa using after

end Path

/-- The value at the end of a path that leads through the maps inside a value. -/
def Value.follow? : Value → List String → Option Value
  | value, [] => some value
  | .map entries, key :: rest => (find? entries key).bind fun inner => inner.follow? rest
  | _, _ :: _ => none

namespace Value

/-- A path that starts in a map goes on in what stands under its first segment. -/
theorem follow?_map_cons (mapping : Mapping) (key : String) (rest : List String) :
    (Value.map mapping).follow? (key :: rest) =
      (find? mapping key).bind fun inner => inner.follow? rest := rfl

/-- An empty path ends where it starts. -/
@[simp] theorem follow?_nil (value : Value) : value.follow? [] = some value := by
  cases value <;> rfl

/-- A path is followed part by part. -/
theorem follow?_append (value : Value) (path rest : List String) :
    value.follow? (path ++ rest) = (value.follow? path).bind fun inner => inner.follow? rest := by
  induction path generalizing value with
  | nil => simp
  | cons key tail ih =>
    cases value with
    | map entries =>
      rw [List.cons_append, follow?_map_cons, follow?_map_cons, Option.bind_assoc]
      congr 1
      funext inner
      exact ih inner
    | _ => rfl

/-- Nothing is found inside an empty map. -/
theorem follow?_empty {path : List String} (nonempty : path ≠ []) :
    (Value.map []).follow? path = none := by
  cases path with
  | nil => exact absurd rfl nonempty
  | cons key rest => rfl

/-- What stands on the way to something is a map. -/
theorem exists_map_of_follow? {value found : Value} {path rest : List String}
    (ends : value.follow? (path ++ rest) = some found) (further : rest ≠ []) :
    ∃ entries, value.follow? path = some (.map entries) := by
  rw [follow?_append] at ends
  obtain ⟨middle, reached, onward⟩ := Option.bind_eq_some_iff.mp ends
  cases rest with
  | nil => exact absurd rfl further
  | cons key tail =>
    cases middle with
    | map entries => exact ⟨entries, reached⟩
    | _ => simp [follow?] at onward

end Value

namespace Mapping

/-- The mapping that a path is followed into below a key: what stands there if it is a map. -/
theorem follow?_entered (mapping : Mapping) (key : String) {rest : List String}
    (further : rest ≠ []) :
    (Value.map (match find? mapping key with
      | some (.map entries) => entries
      | _ => [])).follow? rest = (Value.map mapping).follow? (key :: rest) := by
  obtain ⟨next, tail, rfl⟩ := List.exists_cons_of_ne_nil further
  rw [Value.follow?_map_cons mapping]
  cases find? mapping key with
  | none => rfl
  | some held => cases held <;> rfl

/-- Along the path where a value is put, and further, the value is found. -/
theorem follow?_insertAt_append (mapping : Mapping) (first : String) (others : List String)
    (value : Value) (rest : List String) :
    (Value.map (mapping.insertAt first others value)).follow? (first :: others ++ rest) =
      value.follow? rest := by
  induction others generalizing mapping first with
  | nil => simp [insertAt, Value.follow?_map_cons]
  | cons next others ih =>
    rw [List.cons_append, Value.follow?_map_cons, insertAt, find?_insert_self, Option.bind_some]
    exact ih _ next

/-- Along a path that parts from the one where a value is put, the same is found as before. -/
theorem follow?_insertAt_of_apart (mapping : Mapping) {first : String} {others other : List String}
    (value : Value) (apart : Path.Apart (first :: others) other) :
    (Value.map (mapping.insertAt first others value)).follow? other =
      (Value.map mapping).follow? other := by
  induction others generalizing mapping first other with
  | nil =>
    cases other with
    | nil => exact absurd rfl apart.ne_nil
    | cons key tail =>
      have different : first ≠ key := by
        rintro rfl
        exact apart.1 (by simp)
      rw [insertAt, Value.follow?_map_cons, Value.follow?_map_cons,
        find?_insert_of_ne mapping value different]
  | cons next others ih =>
    cases other with
    | nil => exact absurd rfl apart.ne_nil
    | cons key tail =>
      by_cases same : first = key
      · subst same
        -- The paths enter the same map, so they part inside it.
        have inner := Path.apart_cons_iff.mp apart
        rw [Value.follow?_map_cons, insertAt, find?_insert_self, Option.bind_some, ih _ inner]
        exact follow?_entered mapping first inner.ne_nil
      · rw [insertAt, Value.follow?_map_cons, Value.follow?_map_cons,
          find?_insert_of_ne mapping _ same]

/-- Along a dotted path where a value is put, and further, the value is found. -/
theorem follow?_insertPath_append (mapping : Mapping) (path : String) (value : Value)
    (rest : List String) :
    (Value.map (mapping.insertPath path value)).follow? (Path.parts path ++ rest) =
      value.follow? rest :=
  mapping.follow?_insertAt_append (Path.segments path).1 (Path.segments path).2 value rest

/-- Along a path that parts from a dotted one, the same is found before and after a value is put
there. -/
theorem follow?_insertPath_of_apart (mapping : Mapping) {path : String} {other : List String}
    (value : Value) (apart : Path.Apart (Path.parts path) other) :
    (Value.map (mapping.insertPath path value)).follow? other =
      (Value.map mapping).follow? other :=
  mapping.follow?_insertAt_of_apart value apart

/-- Putting a value at a path without dots is an insertion under a key. -/
theorem insertPath_of_notMem (mapping : Mapping) {path : String} (dotless : '.' ∉ path.toList)
    (value : Value) : mapping.insertPath path value = insert mapping path value := by
  simp only [insertPath, Path.segments_of_notMem dotless, insertAt]

end Mapping

end TypedRecord
