import TypedRecord.Proofs.Restoration

/-!
# Refused values

A column that does not take a value refuses it at a place: the value as a whole, or the first item
of its list or the first entry of its map that is not read as the kind of the column. The error
names the place, the kind that was expected there and what was found.
-/
namespace TypedRecord

/-! ### Changed outcomes -/

section Outcome

variable {α β ε : Type} {outcome : Except ε α} {change : α → β}

/-- A changed outcome is one when there was one that is changed to it. -/
theorem exceptMap_eq_ok {result : β} :
    outcome.map change = .ok result ↔ ∃ before, outcome = .ok before ∧ result = change before := by
  cases outcome <;> simp [Except.map, eq_comm]

/-- A change leaves an error. -/
theorem exceptMap_eq_error {error : ε} :
    outcome.map change = .error error ↔ outcome = .error error := by
  cases outcome <;> simp [Except.map]

end Outcome

/-! ### What is refused -/

variable {name : String} {value : Value} {error : Error}

/-- A value under a name is refused by what a column can hold, at a place where one thing is
expected and another one is found. -/
inductive Slot.Refuses (name : String) (value : Value) : Slot → Place → String → String → Prop where
  /-- The value is not read as the kind of a single datum. -/
  | scalar {kind : Kind} (unread : kind.ofValue? value = none) :
    Refuses name value (.plain (.scalar kind)) (.property name) kind.name value.typeName
  /-- The value for an array is no list. -/
  | array {kind : Kind} (unlisted : value.asList? = none) :
    Refuses name value (.plain (.array kind)) (.property name) "list" value.typeName
  /-- An item is not read as the kind of an array, and all before it are. -/
  | item {kind : Kind} {before after : List Value} {item : Value}
    (list : value = .list (before ++ item :: after))
    (converted : ∀ earlier ∈ before, (kind.ofValue? earlier).isSome)
    (unread : kind.ofValue? item = none) :
    Refuses name value (.plain (.array kind)) (.item name before.length) kind.name item.typeName
  /-- The value for a table is no map. -/
  | table {kind : Kind} (unmapped : value.asMap? = none) :
    Refuses name value (.plain (.table kind)) (.property name) "map" value.typeName
  /-- An entry is not read as the kind of a table, and all before it are. -/
  | entry {kind : Kind} {before after : Mapping} {key : String} {part : Value}
    (map : value = .map (before ++ (key, part) :: after))
    (converted : ∀ earlier ∈ before, (kind.ofValue? earlier.2).isSome)
    (unread : kind.ofValue? part = none) :
    Refuses name value (.plain (.table kind)) (.entry name key) kind.name part.typeName
  /-- The value for an entity is no map. -/
  | entity {declared : Declared} (unmapped : value.asMap? = none) :
    Refuses name value (.entity declared) (.property name) "map" value.typeName

/-- Items that are not loaded are so for the first that is not read. -/
theorem Kind.loadItems_eq_error {kind : Kind} {position : Nat} {items : List Value}
    (failed : kind.loadItems name position items = .error error) :
    ∃ before item after, items = before ++ item :: after ∧
      (∀ earlier ∈ before, (kind.ofValue? earlier).isSome) ∧ kind.ofValue? item = none ∧
        error = .mismatch (.item name (position + before.length)) kind.name item.typeName := by
  induction items generalizing position error with
  | nil => cases failed
  | cons item rest ih =>
    rw [loadItems] at failed
    cases read : kind.ofValue? item with
    | none =>
      simp only [read, Except.error.injEq] at failed
      exact ⟨[], item, rest, rfl, by simp, read, failed.symm⟩
    | some data =>
      simp only [read, exceptMap_eq_error] at failed
      obtain ⟨before, culprit, after, split, converted, unread, same⟩ := ih failed
      refine ⟨item :: before, culprit, after, by rw [split, List.cons_append], ?_, unread, ?_⟩
      · exact List.forall_mem_cons.mpr ⟨by rw [read]; rfl, converted⟩
      · rw [same, List.length_cons, Nat.add_assoc, Nat.add_comm 1]

/-- Entries that are not loaded are so for the first that is not read. -/
theorem Kind.loadEntries_eq_error {kind : Kind} {entries : Mapping}
    (failed : kind.loadEntries name entries = .error error) :
    ∃ before key part after, entries = before ++ (key, part) :: after ∧
      (∀ earlier ∈ before, (kind.ofValue? earlier.2).isSome) ∧ kind.ofValue? part = none ∧
        error = .mismatch (.entry name key) kind.name part.typeName := by
  induction entries generalizing error with
  | nil => cases failed
  | cons entry rest ih =>
    obtain ⟨key, part⟩ := entry
    rw [loadEntries] at failed
    cases read : kind.ofValue? part with
    | none =>
      simp only [read, Except.error.injEq] at failed
      exact ⟨[], key, part, rest, rfl, by simp, read, failed.symm⟩
    | some data =>
      simp only [read, exceptMap_eq_error] at failed
      obtain ⟨before, culprit, found, after, split, converted, unread, same⟩ := ih failed
      refine ⟨(key, part) :: before, culprit, found, after, by rw [split, List.cons_append], ?_,
        unread, same⟩
      exact List.forall_mem_cons.mpr ⟨by rw [read]; rfl, converted⟩

/-- A value that is not loaded is refused by the form of the content, and the error says where. -/
theorem Content.refuses_of_load {content : Content}
    (failed : content.load name value = .error error) :
    ∃ place expected found, error = .mismatch place expected found ∧
      (Slot.plain content.form).Refuses name value place expected found := by
  cases content with
  | scalar kind old =>
    rw [load] at failed
    cases read : kind.ofValue? value with
    | some data => simp [read] at failed
    | none =>
      simp only [read, Except.error.injEq] at failed
      exact ⟨_, _, _, failed.symm, .scalar read⟩
  | array kind old =>
    cases value with
    | list items =>
      rw [load, exceptMap_eq_error] at failed
      obtain ⟨before, item, after, rfl, converted, unread, same⟩ := Kind.loadItems_eq_error failed
      rw [Nat.zero_add] at same
      exact ⟨_, _, _, same, .item rfl converted unread⟩
    | _ => exact ⟨_, _, _, (Except.error.inj failed).symm, .array rfl⟩
  | table kind old =>
    cases value with
    | map entries =>
      rw [load, exceptMap_eq_error] at failed
      obtain ⟨before, key, part, after, rfl, converted, unread, same⟩ :=
        Kind.loadEntries_eq_error failed
      exact ⟨_, _, _, same, .entry rfl converted unread⟩
    | _ => exact ⟨_, _, _, (Except.error.inj failed).symm, .table rfl⟩

end TypedRecord
