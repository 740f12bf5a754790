import TypedRecord.Proofs.Hydration

/-!
# Where a failed hydration stops

Entries are assigned in the order of their keys, and each of them changes its column or nothing. So
an entry that fails divides the mapping: those before it are assigned, and those from it on have
left no trace, however deep inside it the failure was. Main statement: an entity that is hydrated
whole is as it was after a failure, and one that is hydrated in place is where the entries before
the failing one took it.
-/
namespace TypedRecord

open Entries

/-- The entries of a mapping whose keys come before a key. -/
def Mapping.below (data : Mapping) (key : String) : Mapping :=
  data.filter fun entry => entry.1 < key

/-- What comes before the key of an entry of a sorted mapping is what stands before the entry. -/
theorem Mapping.below_append_cons {before after : Mapping} {entry : String × Value}
    (sorted : Sorted (before ++ entry :: after)) :
    below (before ++ entry :: after) entry.1 = before := by
  obtain ⟨-, later, earlier⟩ := List.pairwise_append.mp sorted
  have kept : before.filter (fun other => decide (other.1 < entry.1)) = before := by
    rw [List.filter_eq_self]
    intro other member
    exact decide_eq_true (earlier other member entry List.mem_cons_self)
  have dropped : (entry :: after).filter (fun other => decide (other.1 < entry.1)) = [] := by
    rw [List.filter_eq_nil_iff]
    intro other member
    rw [decide_eq_true_eq]
    rcases List.mem_cons.mp member with rfl | inLater
    · exact lt_irrefl _
    · exact lt_asymm (Sorted.head_lt later inLater)
  rw [below, List.filter_append, kept, dropped, List.append_nil]

namespace Hydrator

variable {hydrator : Hydrator} {build : String → Mapping → Except Error Object}

/-- An entry is assigned, or it leaves the entity as it was. -/
theorem assignEntry_cases (hydrator : Hydrator) (build : String → Mapping → Except Error Object)
    (object : Object) (entry : String × Value) :
    (∃ next, hydrator.assignEntry build object entry = .complete next) ∨
      ∃ error, hydrator.assignEntry build object entry = .stop object error := by
  rw [assignEntry]
  split
  · exact .inr ⟨_, rfl⟩
  · rw [assignValue]
    split
    · exact .inl ⟨_, rfl⟩
    · split
      · split
        · exact .inl ⟨_, rfl⟩
        · exact .inr ⟨_, rfl⟩
      · exact Progress.ofStep_cases _ _

/-- An entry that cannot be assigned leaves the entity as it was. -/
theorem assignEntry_of_stopped {object : Object} {entry : String × Value} {error : Error}
    (stopped : (hydrator.assignEntry build object entry).stopped = some error) :
    hydrator.assignEntry build object entry = .stop object error := by
  rcases hydrator.assignEntry_cases build object entry with ⟨next, done⟩ | ⟨failure, failed⟩
  · simp [done, Progress.complete] at stopped
  · rw [failed, Progress.stop, Option.some.injEq] at stopped
    rw [failed, stopped]

/-- An assignment fails with an error at an entry of a mapping when what comes before the key of
the entry is assigned, the entry alone cannot be assigned to what that makes, and every column of
its name or a later one is still as it was. -/
structure FailsAt (hydrator : Hydrator) (levels : Nat) (object : Object) (values : Mapping)
    (error : Error) (key : String) (raw : Value) (reached : Object) : Prop where
  /-- The entry is one of the mapping. -/
  member : (key, raw) ∈ values
  /-- The entries before it are assigned. -/
  before : hydrator.assign levels object (values.below key) = .complete reached
  /-- The entry is not, and the error says why. -/
  failing : hydrator.assign levels reached [(key, raw)] = .stop reached error
  /-- Neither its column nor a later one has changed. -/
  kept : ∀ name, ¬ name < key → reached.cell? .table name = object.cell? .table name

/-- An assignment that had a level to work on and stopped failed at an entry, and left the entity
where the entries before that one took it. -/
theorem exists_failsAt {values : Mapping} (sorted : Sorted values) {levels : Nat} {object : Object}
    {error : Error} (stopped : (hydrator.assign (levels + 1) object values).stopped = some error) :
    ∃ key raw reached, hydrator.FailsAt (levels + 1) object values error key raw reached ∧
      hydrator.assign (levels + 1) object values = .stop reached error := by
  obtain ⟨before, ⟨key, raw⟩, after, reached, rfl, completed, failed, same⟩ :=
    Progress.exists_of_stopped stopped
  have failing := assignEntry_of_stopped failed
  refine ⟨key, raw, reached, ⟨?_, ?_, ?_, fun name notBefore => ?_⟩, same.trans failing⟩
  · exact List.mem_append_right _ List.mem_cons_self
  · rw [Mapping.below_append_cons sorted]
    exact completed
  · show (hydrator.assignEntry _ reached (key, raw)).andThen _ = .stop reached error
    rw [failing]
    rfl
  · -- The entries that were assigned have smaller keys, and each changed its own column only.
    apply cell?_of_assigned completed
    rw [find?_eq_none_iff]
    rintro entry earlier rfl
    exact notBefore ((List.pairwise_append.mp sorted).2.2 entry earlier _ List.mem_cons_self)

/-- Renaming keeps the keys in order. -/
theorem sorted_rename (hydrator : Hydrator) {values : Mapping} (sorted : Sorted values) :
    Sorted (hydrator.rename values) := by
  rw [rename]
  split
  · exact sorted
  · exact Mapping.sorted_ofPaths _

/-- A failed hydration leaves a state that is known: what is set whole, from all values or without
the protected ones, is as it was, and what is hydrated in place is where the renamed entries before
a failing one took it, with the column of that one and all later ones untouched. -/
theorem state_of_failed_hydration {values : Mapping} (sorted : Sorted values)
    (hydrator : Hydrator) (object : Object) (error : Error) :
    ((hydrator.setFields object values).stopped = some error →
      (hydrator.setFields object values).state = object) ∧
    ((hydrator.setValues object values).stopped = some error →
      (hydrator.setValues object values).state = object) ∧
    ((hydrator.hydrate object values).stopped = some error →
      hydrator.setFields object values = .stop object error ∧
      ∃ key raw reached, hydrator.hydrate object values = .stop reached error ∧
        hydrator.FailsAt hydrator.levels object (hydrator.rename values) error key raw
          reached) := by
  have whole : ∀ given : Mapping, (hydrator.hydrate object given).stopped = some error →
      hydrator.setFields object given = .stop object error :=
    fun _ stopped => Progress.allOrNothing_of_stopped stopped
  have unchanged : ∀ given : Mapping, (hydrator.setFields object given).stopped = some error →
      (hydrator.setFields object given).state = object := by
    intro given stopped
    rw [whole given (Progress.stopped_allOrNothing object _ ▸ stopped)]
    rfl
  refine ⟨unchanged values, unchanged (hydrator.unprotected values), fun stopped => ?_⟩
  obtain ⟨key, raw, reached, fails, left⟩ :=
    exists_failsAt (hydrator.sorted_rename sorted) stopped
  exact ⟨whole values stopped, key, raw, reached, left, fails⟩

/-- What a parcel cannot be hydrated from: the floor of its place is not a number. -/
def misdirected : Mapping :=
  [("Id", .text "id-1"), ("Marks", .list [.text "new"]),
    ("Place", .map [("City", .null), ("Floor", .text "high")]), ("Weight", .int 7)]

/-- The place of a misdirected parcel is the one it was, although its mark and its identity are
new. -/
theorem state_of_failed_hydration_parcel :
    Sorted misdirected ∧
      (forwarding.hydrate (parcel ["old"] (place "Nice" "Quai" 5)) misdirected).stopped =
        some ((Error.mismatch (.property "Floor") "int" "text").within "Place") ∧
      ∃ key raw reached,
        forwarding.FailsAt forwarding.levels (parcel ["old"] (place "Nice" "Quai" 5))
          (forwarding.rename misdirected)
          ((Error.mismatch (.property "Floor") "int" "text").within "Place") key raw reached ∧
        reached = ((parcel ["new"] (place "Nice" "Quai" 5)).put .text "Id" "id-1") := by
  have sorted : Sorted misdirected := by decide
  have renamed : forwarding.rename misdirected = misdirected := rfl
  have left : forwarding.hydrate (parcel ["old"] (place "Nice" "Quai" 5)) misdirected =
      .stop ((parcel ["new"] (place "Nice" "Quai" 5)).put .text "Id" "id-1")
        ((Error.mismatch (.property "Floor") "int" "text").within "Place") := by
    rw [hydrate, renamed]
    rfl
  have stopped := congrArg Progress.stopped left
  obtain ⟨-, key, raw, reached, there, fails⟩ :=
    (state_of_failed_hydration sorted forwarding (parcel ["old"] (place "Nice" "Quai" 5)) _).2.2
      stopped
  exact ⟨sorted, stopped, key, raw, reached, fails,
    congrArg Progress.state (there.symm.trans left)⟩

end Hydrator

end TypedRecord
