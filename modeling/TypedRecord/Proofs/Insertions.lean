import TypedRecord.Proofs.Paths

/-!
# Putting values at paths

A path is a lens on a mapping. What is put at a path is found there, what stands along a path that
parts from it is left alone, and two values at paths that part may be put in either order; of two
values at one path the later one counts. Only two things are lost: what stood at the path, with all
that was inside it, and whatever stood on the way without being a map. A map on the way stays a map,
and its entries stand along paths of their own.
-/
namespace TypedRecord

open Entries TypedRecord.Path

namespace Entries

variable {α : Type}

/-- Of two insertions under one key the later one counts. -/
theorem insert_insert (entries : Entries α) (key : String) (first second : α) :
    insert (insert entries key first) key second = insert entries key second := by
  induction entries with
  | nil => simp [insert]
  | cons entry rest ih =>
    obtain ⟨held, old⟩ := entry
    by_cases before : key < held
    · simp [insert, before]
    · by_cases same : key = held
      · simp [insert, same]
      · simp [insert, before, same, ih]

/-- Insertions under different keys may be made in either order. -/
theorem insert_comm (entries : Entries α) {key other : String} (first second : α)
    (different : key ≠ other) :
    insert (insert entries key first) other second =
      insert (insert entries other second) key first := by
  wlog ordered : key < other generalizing key other first second
  · exact (this second first different.symm
      (lt_of_le_of_ne (not_lt.mp ordered) different.symm)).symm
  have behind : ¬ other < key := lt_asymm ordered
  induction entries with
  | nil => simp [insert, ordered, behind, different.symm]
  | cons entry rest ih =>
    obtain ⟨held, old⟩ := entry
    -- The smaller key finds its place first, wherever the other one goes behind it.
    rcases lt_trichotomy key held with before | rfl | after
    · simp only [insert, before, ↓reduceIte, behind, different.symm]
      split
      · simp [insert, ordered]
      · split
        · simp [insert, ordered]
        · simp [insert, before]
    · simp [insert, behind, different.symm]
    · have further : held < other := after.trans ordered
      simp [insert, lt_asymm after, after.ne', lt_asymm further, further.ne', ih]

end Entries

namespace Mapping

/-! ### What stands under the first segment -/

/-- What stands under the first segment of a path once a value is put below it, by what stood there
before. -/
def placed (held : Option Value) (others : List String) (value : Value) : Value :=
  match others with
  | [] => value
  | next :: rest =>
    let inner : Mapping := match held with
      | some (.map entries) => entries
      | _ => []
    .map (inner.insertAt next rest value)

/-- Putting a value below segments is an insertion under the first of them. -/
theorem insertAt_eq_insert_placed (mapping : Mapping) (first : String) (others : List String)
    (value : Value) :
    mapping.insertAt first others value =
      insert mapping first (placed (find? mapping first) others value) := by
  cases others <;> rfl

/-- Under another first segment the same stands before and after a value is put below one. -/
theorem find?_insertAt_of_ne (mapping : Mapping) {first other : String} (others : List String)
    (value : Value) (different : first ≠ other) :
    find? (mapping.insertAt first others value) other = find? mapping other := by
  rw [insertAt_eq_insert_placed, find?_insert_of_ne mapping _ different]

/-- Of two values put below the same segments the later one counts. -/
theorem insertAt_insertAt (mapping : Mapping) (first : String) (others : List String)
    (value later : Value) :
    (mapping.insertAt first others value).insertAt first others later =
      mapping.insertAt first others later := by
  induction others generalizing mapping first with
  | nil => exact insert_insert mapping first value later
  | cons next rest ih => simp only [insertAt, find?_insert_self, insert_insert, ih]

/-- Values below different first segments may be put in either order. -/
theorem insertAt_comm_of_ne (mapping : Mapping) {first second : String}
    (others rest : List String) (value later : Value) (different : first ≠ second) :
    (mapping.insertAt first others value).insertAt second rest later =
      (mapping.insertAt second rest later).insertAt first others value := by
  rw [insertAt_eq_insert_placed (mapping.insertAt first others value) second,
    find?_insertAt_of_ne mapping others value different,
    insertAt_eq_insert_placed (mapping.insertAt second rest later) first,
    find?_insertAt_of_ne mapping rest later different.symm,
    insertAt_eq_insert_placed mapping first, insertAt_eq_insert_placed mapping second,
    insert_comm mapping _ _ different]

/-- Values below segments that part may be put in either order. -/
theorem insertAt_comm (mapping : Mapping) {first second : String} {others rest : List String}
    (value later : Value) (apart : Apart (first :: others) (second :: rest)) :
    (mapping.insertAt first others value).insertAt second rest later =
      (mapping.insertAt second rest later).insertAt first others value := by
  induction others generalizing mapping first second rest with
  | nil =>
    have different : first ≠ second := by
      rintro rfl
      exact apart.1 (by simp)
    exact insertAt_comm_of_ne mapping [] rest value later different
  | cons next others ih =>
    by_cases same : first = second
    · subst same
      -- Both values go into the map under the shared segment, and inside it their paths part.
      have inner := apart_cons_iff.mp apart
      obtain ⟨other, rest, rfl⟩ := List.exists_cons_of_ne_nil inner.ne_nil
      simp only [insertAt, find?_insert_self, insert_insert, ih _ inner]
    · exact insertAt_comm_of_ne mapping (next :: others) rest value later same

/-! ### What is lost -/

/-- What stood along a path is kept in a mapping when it stands there; of a map it is enough that a
map stands there, because its entries stand along paths of their own. -/
def Keeps (mapping : Mapping) (path : List String) : Value → Prop
  | .map _ => ∃ entries, (Value.map mapping).follow? path = some (.map entries)
  | value => (Value.map mapping).follow? path = some value

/-- What still stands along a path is kept. -/
theorem keeps_of_follow? {mapping : Mapping} {path : List String} {value : Value}
    (found : (Value.map mapping).follow? path = some value) : mapping.Keeps path value := by
  cases value with
  | map entries => exact ⟨entries, found⟩
  | _ => exact found

/-- Along a path that goes on to where a value is put stands a map. -/
theorem exists_map_of_parts_eq_append (mapping : Mapping) {path : String} (value : Value)
    {way rest : List String} (goes : parts path = way ++ rest) (further : rest ≠ []) :
    ∃ entries, (Value.map (mapping.insertPath path value)).follow? way = some (.map entries) := by
  have put := mapping.follow?_insertPath_append path value []
  rw [List.append_nil, goes, Value.follow?_nil] at put
  exact Value.exists_map_of_follow? put further

/-- What putting a value at a path loses stood at the path, or inside what stood there, or on the
way to it and was no map. -/
theorem lost_of_not_keeps {mapping : Mapping} {path : String} {value lost : Value}
    {along : List String} (stood : (Value.map mapping).follow? along = some lost)
    (gone : ¬ (mapping.insertPath path value).Keeps along lost) :
    (∃ whole rest, (Value.map mapping).follow? (parts path) = some whole ∧
      along = parts path ++ rest ∧ whole.follow? rest = some lost) ∨
    (along <+: parts path ∧ along ≠ parts path ∧ lost.asMap? = none) := by
  by_cases within : parts path <+: along
  · obtain ⟨rest, rfl⟩ := within
    rw [Value.follow?_append] at stood
    obtain ⟨whole, reached, inside⟩ := Option.bind_eq_some_iff.mp stood
    exact .inl ⟨whole, rest, reached, rfl, inside⟩
  · by_cases before : along <+: parts path
    · refine .inr ⟨before, fun same => within (same ▸ List.prefix_refl _), ?_⟩
      obtain ⟨rest, goes⟩ := before
      have further : rest ≠ [] := by
        rintro rfl
        rw [List.append_nil] at goes
        exact within (goes ▸ List.prefix_refl along)
      have map := mapping.exists_map_of_parts_eq_append value goes.symm further
      cases lost with
      | map entries => exact absurd map gone
      | _ => rfl
    · have same := mapping.follow?_insertPath_of_apart value ⟨within, before⟩
      exact absurd (keeps_of_follow? (same.trans stood)) gone

/-- A path is a lens on a mapping: what is put there is found there, what stands along a path that
parts from it stays as it was, and nothing is lost but what stood at the path, with all that was
inside it, and what stood on the way and was no map. So values at paths that part may be put in
either order, and of two values at one path the later one counts. -/
theorem insertPath_lens (mapping : Mapping) (path : String) (value : Value) :
    (Value.map (mapping.insertPath path value)).follow? (parts path) = some value ∧
    (∀ other, Apart (parts path) other →
      (Value.map (mapping.insertPath path value)).follow? other =
        (Value.map mapping).follow? other) ∧
    (∀ along lost, (Value.map mapping).follow? along = some lost →
      ¬ (mapping.insertPath path value).Keeps along lost →
        (∃ whole rest, (Value.map mapping).follow? (parts path) = some whole ∧
          along = parts path ++ rest ∧ whole.follow? rest = some lost) ∨
        (along <+: parts path ∧ along ≠ parts path ∧ lost.asMap? = none)) ∧
    (∀ other later, Apart (parts path) (parts other) →
      (mapping.insertPath path value).insertPath other later =
        (mapping.insertPath other later).insertPath path value) ∧
    ∀ later, (mapping.insertPath path value).insertPath path later =
      mapping.insertPath path later := by
  refine ⟨?_, ?_, ?_, ?_, ?_⟩
  · have found := mapping.follow?_insertPath_append path value []
    rwa [List.append_nil, Value.follow?_nil] at found
  · exact fun other apart => mapping.follow?_insertPath_of_apart value apart
  · exact fun along lost stood gone => lost_of_not_keeps stood gone
  · exact fun other later apart => mapping.insertAt_comm value later apart
  · exact mapping.insertAt_insertAt (segments path).1 (segments path).2 value

/-- A mapping with a map and a text inside it. -/
def letterhead : Mapping :=
  [("Home", .map [("City", .text "Lyon"), ("Street", .text "Rue")]), ("Note", .text "draft")]

/-- A value put below a text takes its place, leaves what stands beside it, and may as well be put
after a value elsewhere. -/
theorem insertPath_lens_letterhead :
    Apart (parts "Home.City.Code") ["Home", "Street"] ∧
    (Value.map (letterhead.insertPath "Home.City.Code" (.int 69))).follow? ["Home", "Street"] =
      (Value.map letterhead).follow? ["Home", "Street"] ∧
    ¬ (letterhead.insertPath "Home.City.Code" (.int 69)).Keeps ["Home", "City"] (.text "Lyon") ∧
    ((∃ whole rest, (Value.map letterhead).follow? (parts "Home.City.Code") = some whole ∧
        ["Home", "City"] = parts "Home.City.Code" ++ rest ∧
        whole.follow? rest = some (.text "Lyon")) ∨
      (["Home", "City"] <+: parts "Home.City.Code" ∧ ["Home", "City"] ≠ parts "Home.City.Code" ∧
        (Value.text "Lyon").asMap? = none)) ∧
    Apart (parts "Home.City.Code") (parts "Home.Door") ∧
    (letterhead.insertPath "Home.City.Code" (.int 69)).insertPath "Home.Door" (.int 7) =
      (letterhead.insertPath "Home.Door" (.int 7)).insertPath "Home.City.Code" (.int 69) := by
  obtain ⟨-, beside, lost, either, -⟩ := insertPath_lens letterhead "Home.City.Code" (.int 69)
  have apart : Apart (parts "Home.City.Code") ["Home", "Street"] := by decide
  have elsewhere : Apart (parts "Home.City.Code") (parts "Home.Door") := by decide
  have gone : ¬ (letterhead.insertPath "Home.City.Code" (.int 69)).Keeps ["Home", "City"]
      (.text "Lyon") := by
    have replaced : (Value.map (letterhead.insertPath "Home.City.Code" (.int 69))).follow?
        ["Home", "City"] = some (.map [("Code", .int 69)]) := rfl
    simp [Keeps, replaced]
  exact ⟨apart, beside _ apart, gone, lost ["Home", "City"] (.text "Lyon") rfl gone, elsewhere,
    either "Home.Door" (.int 7) elsewhere⟩

end Mapping

end TypedRecord
