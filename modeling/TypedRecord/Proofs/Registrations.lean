import TypedRecord.Entity.Component
import TypedRecord.Proofs.Tables
import TypedRecord.Registry

/-!
# Registrations

A registry is built by registrations one after another, and one that is refused is skipped. Under
every name the registry keeps the first registration that asked for it, with or without collections
as that one said, and the later ones leave no trace. Main statement: what a registry answers after
any registrations, told from their history.
-/
namespace TypedRecord

open Entries

/-- The name that a registration asks for. -/
def Factory.name (factory : Factory) : String := factory.blank.type.name

namespace Registry

variable {registry : Registry} {factory : Factory} {name : String}

/-- A registry after a registration, which is skipped when it is refused. -/
def attempt (registry : Registry) (factory : Factory) : Registry :=
  (registry.register factory).toOption.getD registry

/-- The registry that registrations build. -/
def ofCalls (calls : List Factory) : Registry := calls.foldl attempt []

/-- The first registration that asks for a name. -/
def first? (calls : List Factory) (name : String) : Option Factory :=
  calls.find? fun call => call.name = name

/-- A registration succeeds after others when the registry that these build takes it. -/
def Succeeds (earlier : List Factory) (call : Factory) : Prop :=
  ∃ next, (ofCalls earlier).register call = .ok next

/-! ### One registration -/

/-- A registration is taken when its name is free. -/
theorem register_of_free (free : find? registry factory.name = none) :
    registry.register factory = .ok (insert registry factory.name factory) := by
  have absent : contains registry factory.blank.type.name = false := by
    rw [contains, show find? registry factory.blank.type.name = none from free]
    rfl
  simp only [register, absent, Bool.false_eq_true, ↓reduceIte]
  rfl

/-- A registration is refused when its name is taken. -/
theorem register_of_taken {held : Factory} (taken : find? registry factory.name = some held) :
    registry.register factory = .error (.refuse (.alreadyRegistered factory.name)) := by
  have present : contains registry factory.blank.type.name = true := by
    rw [contains, show find? registry factory.blank.type.name = some held from taken]
    rfl
  simp only [register, present, ↓reduceIte]
  rfl

/-- A registration fails when its name is taken, and it always says so. -/
theorem register_eq_error_iff {error : Error} :
    registry.register factory = .error error ↔
      (find? registry factory.name).isSome ∧
        error = .refuse (.alreadyRegistered factory.name) := by
  cases held : find? registry factory.name with
  | none => simp [register_of_free held]
  | some other => simp [register_of_taken held, eq_comm]

/-- A registration that fails leaves the registry. -/
theorem attempt_of_error {error : Error} (refused : registry.register factory = .error error) :
    registry.attempt factory = registry := by
  rw [attempt, refused]
  rfl

/-- A registration adds its type under its name, unless there is one. -/
theorem find?_attempt (registry : Registry) (factory : Factory) (name : String) :
    find? (registry.attempt factory) name =
      (find? registry name).or (if factory.name = name then some factory else none) := by
  cases held : find? registry factory.name with
  | some other =>
    rw [attempt_of_error (register_of_taken held)]
    by_cases here : factory.name = name
    · rw [← here, held, Option.some_or]
    · rw [if_neg here, Option.or_none]
  | none =>
    rw [attempt, register_of_free held]
    simp only [Except.toOption, Option.getD_some]
    by_cases here : factory.name = name
    · rw [← here, find?_insert_self, held, Option.none_or, if_pos rfl]
    · rw [find?_insert_of_ne _ _ here, if_neg here, Option.or_none]

/-- A registration keeps the names in order. -/
theorem sorted_attempt (sorted : Sorted registry) (factory : Factory) :
    Sorted (registry.attempt factory) := by
  cases held : find? registry factory.name with
  | some other => rwa [attempt_of_error (register_of_taken held)]
  | none =>
    rw [attempt, register_of_free held]
    exact sorted.insert factory.name factory

/-! ### Any registrations -/

/-- Registrations add the first one of every name that there was none under. -/
theorem find?_foldl_attempt (calls : List Factory) (registry : Registry) (name : String) :
    find? (calls.foldl attempt registry) name = (find? registry name).or (first? calls name) := by
  induction calls generalizing registry with
  | nil => simp [first?]
  | cons call rest ih =>
    rw [List.foldl_cons, ih, find?_attempt, Option.or_assoc]
    by_cases here : call.name = name <;> simp [first?, here]

/-- A registry has under every name the first registration that asked for it. -/
theorem find?_ofCalls (calls : List Factory) (name : String) :
    find? (ofCalls calls) name = first? calls name := by
  rw [ofCalls, find?_foldl_attempt]
  rfl

/-- The names of a registry are in order. -/
theorem sorted_ofCalls (calls : List Factory) : Sorted (ofCalls calls) := by
  suffices kept : ∀ registry : Registry, Sorted registry →
      Sorted (calls.foldl attempt registry) from kept [] List.Pairwise.nil
  induction calls with
  | nil => exact fun _ sorted => sorted
  | cons call rest ih => exact fun registry sorted => ih _ (sorted_attempt sorted call)

/-- A registration succeeds when no earlier one asked for its name. -/
theorem succeeds_iff {earlier : List Factory} {call : Factory} :
    Succeeds earlier call ↔ first? earlier call.name = none := by
  rw [Succeeds, ← find?_ofCalls]
  cases held : find? (ofCalls earlier) call.name with
  | none => simp [register_of_free held]
  | some other => simp [register_of_taken held]

/-- Some registration asks for a name exactly when one of the name succeeds, the first one. -/
theorem exists_succeeds_iff {calls : List Factory} :
    (∃ earlier call later, calls = earlier ++ call :: later ∧ call.name = name ∧
      Succeeds earlier call) ↔ (first? calls name).isSome := by
  constructor
  · rintro ⟨earlier, call, later, rfl, asked, -⟩
    rw [first?, List.find?_isSome]
    exact ⟨call, List.mem_append_right _ List.mem_cons_self, decide_eq_true asked⟩
  · intro found
    obtain ⟨call, first⟩ := Option.isSome_iff_exists.mp found
    obtain ⟨asked, earlier, later, split, others⟩ := List.find?_eq_some_iff_append.mp first
    have asked : call.name = name := of_decide_eq_true asked
    refine ⟨earlier, call, later, split, asked, succeeds_iff.mpr ?_⟩
    rw [first?, asked, List.find?_eq_none]
    intro other member
    simpa using others other member

/-- What a registry answers, told from the registrations that built it. -/
structure KeepsFirst (calls : List Factory) (registry : Registry) : Prop where
  /-- A registration fails exactly when an earlier one under its name succeeded. -/
  fails : ∀ earlier call later, calls = earlier ++ call :: later →
    ((∃ error, (ofCalls earlier).register call = .error error) ↔
      ∃ before other between, earlier = before ++ other :: between ∧ other.name = call.name ∧
        Succeeds before other)
  /-- It is a bad argument then, and the registry stays as it was. -/
  skips : ∀ earlier call later error, calls = earlier ++ call :: later →
    (ofCalls earlier).register call = .error error →
      error = .refuse (.alreadyRegistered call.name) ∧ error.kind = .badArgument ∧
        ofCalls (earlier ++ [call]) = ofCalls earlier
  /-- The names are in strictly ascending order. -/
  ascending : (keys registry).Pairwise (· < ·)
  /-- They are those under which a registration succeeded. -/
  registered : ∀ name, name ∈ keys registry ↔ ∃ earlier call later,
    calls = earlier ++ call :: later ∧ call.name = name ∧ Succeeds earlier call
  /-- A registry has as many types as names. -/
  length_eq : registry.length = (keys registry).length
  /-- It is empty when it has no names. -/
  isEmpty_iff : registry.isEmpty ↔ ∀ name, name ∉ keys registry
  /-- It contains its names. -/
  contains_iff : ∀ name, contains registry name ↔ name ∈ keys registry
  /-- An entity is a blank one of the type that was registered first, and a type is missing exactly
  when it was not registered. -/
  create_eq : ∀ name, registry.create name = match first? calls name with
    | some call => .ok call.blank
    | none => .error (Cause.missingType name).error
  /-- So are the entities of a collection, as many as are asked for, if the first registration came
  with collections. -/
  createCollection_eq : ∀ name length, registry.createCollection name length =
    match first? calls name with
    | some call =>
      if call.collects then .ok (List.replicate length call.blank)
      else .error (.refuse (.noCollections name))
    | none => .error (Cause.missingType name).error

/-- Whatever the registrations are, with names repeated in any way, the registry keeps the first of
every name and nothing of the others. -/
theorem keepsFirst_ofCalls (calls : List Factory) : KeepsFirst calls (ofCalls calls) where
  fails earlier call later _ := by
    simp only [register_eq_error_iff]
    rw [exists_succeeds_iff, ← find?_ofCalls]
    exact ⟨fun ⟨_, taken, _⟩ => taken, fun taken => ⟨_, taken, rfl⟩⟩
  skips earlier call later error _ refused := by
    refine ⟨(register_eq_error_iff.mp refused).2, ?_, ?_⟩
    · rw [(register_eq_error_iff.mp refused).2]
      rfl
    · rw [ofCalls, List.foldl_concat]
      exact attempt_of_error refused
  ascending := List.pairwise_map.mpr (sorted_ofCalls calls)
  registered name := by rw [mem_keys_iff, find?_ofCalls, exists_succeeds_iff]
  length_eq := by rw [keys, List.length_map]
  isEmpty_iff := by
    rw [List.isEmpty_iff]
    constructor
    · intro empty name
      rw [empty]
      exact List.not_mem_nil
    · intro nameless
      exact List.map_eq_nil_iff.mp (List.eq_nil_iff_forall_not_mem.mpr nameless)
  contains_iff name := mem_keys_iff.symm
  create_eq name := by
    rw [create, Registry.factory, find?_ofCalls]
    cases first? calls name <;> rfl
  createCollection_eq name length := by
    rw [createCollection, Registry.factory, find?_ofCalls]
    cases first? calls name <;> rfl

/-- A registration that comes too late brings no collections. -/
example : (ofCalls [⟨.tenant, false⟩, ⟨.deletion, true⟩, ⟨.tenant, true⟩]).createCollection
    "TenantInfo" 2 = .error (.refuse (.noCollections "TenantInfo")) := rfl

end Registry

end TypedRecord
