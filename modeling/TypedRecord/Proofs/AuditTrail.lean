import Mathlib.Data.List.Induction
import TypedRecord.Entity.Component
import TypedRecord.Proofs.Columns
import TypedRecord.Sample.Entities

/-!
# Audit trails

Entities and updates are stamped call after call, and a call without a user leaves no signature. An
entity is new as long as the name of its creator is empty, so a user with an empty name signs as the
creator and leaves the entity new: the creator is recorded for good by the first signature with a
name. The updater is always the last one who signed. An update takes the last signature only.
-/
namespace TypedRecord

open Entries

/-- A call for a stamp. -/
structure StampCall where
  /-- Who asks for it, if anybody does. -/
  user : Option String
  /-- When it is asked for. -/
  time : Timestamp

/-- The signatures that calls leave. -/
def signatures (calls : List StampCall) : List (String × Timestamp) :=
  calls.filterMap fun call => call.user.map fun user => (user, call.time)

/-- The last call signs last, or not at all. -/
theorem signatures_concat (calls : List StampCall) (user : Option String) (time : Timestamp) :
    signatures (calls ++ [⟨user, time⟩]) =
      signatures calls ++ (user.map fun user => (user, time)).toList := by
  cases user <;> simp [signatures]

/-! ### Stamps -/

namespace Audit

variable {audit : Audit}

/-- The creator, and when it was created. -/
def created (audit : Audit) : String × Timestamp := (audit.createdBy, audit.createdAt)

/-- The last updater, and when it was updated. -/
def updated (audit : Audit) : String × Timestamp := (audit.updatedBy, audit.updatedAt)

/-- The stamps after some calls. -/
def stampAll (audit : Audit) (calls : List StampCall) : Audit :=
  calls.foldl (fun audit call => audit.stamp call.user call.time) audit

/-- A stamp is new as long as the name of the creator is empty. -/
theorem isNew_iff : audit.isNew ↔ audit.createdBy = "" := String.isEmpty_iff

/-- A signature on new stamps is the one of the creator as well. -/
theorem stamp_of_new (new : audit.createdBy = "") (user : String) (time : Timestamp) :
    audit.stamp (some user) time = ⟨user, user, time, time⟩ := by
  rw [stamp, if_pos (isNew_iff.mpr new)]

/-- A creator with a name is not replaced. -/
theorem created_stamp_of_known (known : audit.createdBy ≠ "") (user : Option String)
    (time : Timestamp) : (audit.stamp user time).created = audit.created := by
  cases user with
  | none => rfl
  | some user =>
    rw [stamp, if_neg fun new => known (isNew_iff.mp new)]
    rfl

/-- The updater is the one who signs. -/
theorem updated_stamp (audit : Audit) (user : Option String) (time : Timestamp) :
    (audit.stamp user time).updated = (user.map fun user => (user, time)).getD audit.updated := by
  cases user with
  | none => rfl
  | some user =>
    rw [stamp]
    split <;> rfl

/-- A creator with a name is never replaced. -/
theorem created_stampAll_of_known (known : audit.createdBy ≠ "") (calls : List StampCall) :
    (audit.stampAll calls).created = audit.created := by
  induction calls generalizing audit with
  | nil => rfl
  | cons call rest ih =>
    have kept := created_stamp_of_known known call.user call.time
    have stillKnown : (audit.stamp call.user call.time).createdBy ≠ "" :=
      (congrArg Prod.fst kept).trans_ne known
    exact (ih stillKnown).trans kept

/-- The creator of new stamps is the first one who signs with a name. -/
theorem created_stampAll_of_new (new : audit.createdBy = "") {calls : List StampCall}
    {first : String × Timestamp}
    (signed : (signatures calls).find? (fun signature => signature.1 ≠ "") = some first) :
    (audit.stampAll calls).created = first := by
  induction calls generalizing audit with
  | nil => cases signed
  | cons call rest ih =>
    obtain ⟨user, time⟩ := call
    cases user with
    | none => exact ih new signed
    | some user =>
      have stamped : audit.stampAll (⟨some user, time⟩ :: rest) =
          stampAll ⟨user, user, time, time⟩ rest := by
        rw [stampAll, List.foldl_cons, stamp_of_new new]
        rfl
      have others : signatures (⟨some user, time⟩ :: rest) = (user, time) :: signatures rest := rfl
      rw [others, List.find?_cons] at signed
      rw [stamped]
      by_cases named : user = ""
      · -- An empty name leaves the stamps new.
        simp only [named, ne_eq, not_true_eq_false, decide_false] at signed
        exact ih named signed
      · simp only [ne_eq, named, not_false_eq_true, decide_true, Option.some.injEq] at signed
        exact (created_stampAll_of_known named rest).trans signed

/-- The updater is the last one who signs. -/
theorem updated_stampAll (audit : Audit) (calls : List StampCall) :
    (audit.stampAll calls).updated = (signatures calls).getLast?.getD audit.updated := by
  induction calls using List.reverseRecOn with
  | nil => rfl
  | append_singleton calls call ih =>
    obtain ⟨user, time⟩ := call
    have last : audit.stampAll (calls ++ [⟨user, time⟩]) =
        (audit.stampAll calls).stamp user time := List.foldl_concat ..
    rw [last, updated_stamp, signatures_concat, ih]
    cases user <;> simp

end Audit

/-! ### Stamped entities -/

namespace Object

variable {object part : Object} {audit before : Audit} {name : String}

/-- An entity of a type is the first part of the type. -/
theorem component?_self (object : Object) : object.component? object.type.ident = some object := by
  obtain ⟨type, columns, mixins, hidden⟩ := object
  rw [component?]
  exact if_pos rfl

mutual

/-- The part of a type is found changed, when the change keeps the type. -/
theorem component?_updateComponent {change : Object → Object} (ident : String)
    (kept : ∀ part, (change part).type = part.type) : ∀ object : Object,
      (object.updateComponent ident change).component? ident =
        (object.component? ident).map change
  | mk type columns mixins hidden => by
    rw [updateComponent, component?]
    by_cases own : type.ident = ident
    · rw [if_pos own, if_pos own, Option.map_some]
      have same : (change (mk type columns mixins hidden)).type.ident = ident :=
        (congrArg EntityType.ident (kept _)).trans own
      exact same ▸ component?_self _
    · rw [if_neg own, if_neg own, component?, if_neg own]
      exact mixedComponent?_updateMixedComponent ident kept mixins

/-- The part of a type is found changed among mixed in entities. -/
theorem mixedComponent?_updateMixedComponent {change : Object → Object} (ident : String)
    (kept : ∀ part, (change part).type = part.type) : ∀ mixins : List Object,
      mixedComponent? ident (updateMixedComponent ident change mixins) =
        (mixedComponent? ident mixins).map change
  | [] => rfl
  | object :: rest => by
    rw [updateMixedComponent, mixedComponent?]
    by_cases first : (object.component? ident).isSome
    · obtain ⟨part, found⟩ := Option.isSome_iff_exists.mp first
      rw [if_pos first, mixedComponent?, component?_updateComponent ident kept object, found]
      rfl
    · have absent : object.component? ident = none := by simpa using first
      rw [if_neg first, mixedComponent?, absent, Option.none_or, Option.none_or]
      exact mixedComponent?_updateMixedComponent ident kept rest

end

mutual

/-- A column that a change of a part leaves is left in the entity. -/
theorem cell?_updateComponent {change : Object → Object} (ident : String) {scope : Scope}
    {name : String} (kept : ∀ part, (change part).cell? scope name = part.cell? scope name) :
    ∀ object : Object, (object.updateComponent ident change).cell? scope name =
      object.cell? scope name
  | mk type columns mixins hidden => by
    rw [updateComponent]
    split
    · exact kept _
    · rw [cell?, cell?, mixedCell?_updateMixedComponent ident kept mixins]

/-- A column that a change of a part leaves is left in mixed in entities. -/
theorem mixedCell?_updateMixedComponent {change : Object → Object} (ident : String) {scope : Scope}
    {name : String} (kept : ∀ part, (change part).cell? scope name = part.cell? scope name) :
    ∀ mixins : List Object, mixedCell? scope name (updateMixedComponent ident change mixins) =
      mixedCell? scope name mixins
  | [] => rfl
  | object :: rest => by
    rw [updateMixedComponent]
    split
    · rw [mixedCell?, mixedCell?, cell?_updateComponent ident kept object]
    · rw [mixedCell?, mixedCell?, mixedCell?_updateMixedComponent ident kept rest]

end

/-- Data that is put under a name leaves the columns of all other names. -/
theorem get?_put_of_ne (object : Object) {kind other : Kind} {name place : String}
    (data : kind.Carrier) (different : name ≠ place) :
    (object.put kind name data).get? other place = object.get? other place := by
  rw [get?, put, value?, cell?_setCell_of_ne .table _ different, get?, value?]

/-- Data that is put under the name of a column is read back when its value is. -/
theorem get?_put_self {kind : Kind} {data : kind.Carrier}
    (held : (object.get? kind name).isSome) (read : kind.ofValue? (kind.toValue data) = some data) :
    (object.put kind name data).get? kind name = some data := by
  have present : (object.cell? .table name).isSome := by
    cases absent : object.cell? .table name with
    | none => simp [get?, value?, absent] at held
    | some cell => rfl
  rw [get?, put, value?, cell?_setCell_self .table name _ object present]
  exact read

/-- An entity holds stamps in the columns of their names. -/
structure Holds (part : Object) (audit : Audit) : Prop where
  /-- The creator. -/
  createdBy : part.get? .text "CreatedBy" = some audit.createdBy
  /-- The last updater. -/
  updatedBy : part.get? .text "UpdatedBy" = some audit.updatedBy
  /-- When it was created. -/
  createdAt : part.get? .timestamp "CreatedAt" = some audit.createdAt
  /-- When it was updated. -/
  updatedAt : part.get? .timestamp "UpdatedAt" = some audit.updatedAt

/-- The stamps of an entity are those that its part for them holds. -/
theorem audit?_eq_some_iff : object.audit? = some audit ↔
    ∃ part, object.component? EntityType.tracking.ident = some part ∧ part.Holds audit := by
  simp only [audit?, bind, Option.bind_eq_some_iff]
  constructor
  · rintro ⟨part, found, createdBy, one, updatedBy, two, createdAt, three, updatedAt, four, same⟩
    cases same
    exact ⟨part, found, one, two, three, four⟩
  · rintro ⟨part, found, one, two, three, four⟩
    exact ⟨part, found, _, one, _, two, _, three, _, four, rfl⟩

/-- A part with its stamps replaced. -/
def sign (audit : Audit) (part : Object) : Object :=
  (((part.put .text "CreatedBy" audit.createdBy).put .text "UpdatedBy" audit.updatedBy).put
    .timestamp "CreatedAt" audit.createdAt).put .timestamp "UpdatedAt" audit.updatedAt

/-- The type of a part stays when it is signed. -/
theorem type_sign (audit : Audit) (part : Object) : (part.sign audit).type = part.type := by
  simp [sign, put]

/-- A part that is signed keeps all columns that do not hold stamps. -/
theorem cell?_sign (audit : Audit) (aside : name ∉ EntityType.tracking.properties) (part : Object) :
    (part.sign audit).cell? .table name = part.cell? .table name := by
  have apart : ∀ place ∈ EntityType.tracking.properties, place ≠ name :=
    fun _ member same => aside (same ▸ member)
  rw [sign, put, put, put, put, cell?_setCell_of_ne _ _ (apart _ (by decide)),
    cell?_setCell_of_ne _ _ (apart _ (by decide)), cell?_setCell_of_ne _ _ (apart _ (by decide)),
    cell?_setCell_of_ne _ _ (apart _ (by decide))]

/-- A part that held stamps holds those that it is signed with. -/
theorem Holds.sign (held : part.Holds before) (audit : Audit) : (part.sign audit).Holds audit := by
  constructor
  · rw [Object.sign, get?_put_of_ne _ _ (by decide), get?_put_of_ne _ _ (by decide),
      get?_put_of_ne _ _ (by decide)]
    exact get?_put_self (by rw [held.createdBy]; rfl) rfl
  · rw [Object.sign, get?_put_of_ne _ _ (by decide), get?_put_of_ne _ _ (by decide)]
    refine get?_put_self ?_ rfl
    rw [get?_put_of_ne _ _ (by decide), held.updatedBy]
    rfl
  · rw [Object.sign, get?_put_of_ne _ _ (by decide)]
    refine get?_put_self ?_ rfl
    rw [get?_put_of_ne _ _ (by decide), get?_put_of_ne _ _ (by decide), held.createdAt]
    rfl
  · refine get?_put_self ?_ rfl
    rw [get?_put_of_ne _ _ (by decide), get?_put_of_ne _ _ (by decide),
      get?_put_of_ne _ _ (by decide), held.updatedAt]
    rfl

/-- The stamps that an entity is given are read back. -/
theorem audit?_setAudit (held : object.audit? = some before) (audit : Audit) :
    (object.setAudit audit).audit? = some audit := by
  obtain ⟨part, found, holds⟩ := audit?_eq_some_iff.mp held
  refine audit?_eq_some_iff.mpr ⟨part.sign audit, ?_, holds.sign audit⟩
  have changed := component?_updateComponent EntityType.tracking.ident (type_sign audit) object
  rw [found] at changed
  exact changed

/-- A stamp on an entity is one on its stamps. -/
theorem audit?_stamp (held : object.audit? = some audit) (user : Option String) (time : Timestamp) :
    (object.stamp user time).audit? = some (audit.stamp user time) := by
  rw [stamp, held]
  exact audit?_setAudit held _

/-- A stamp keeps all columns that do not hold stamps. -/
theorem cell?_stamp (aside : name ∉ EntityType.tracking.properties) (object : Object)
    (user : Option String) (time : Timestamp) :
    (object.stamp user time).cell? .table name = object.cell? .table name := by
  rw [stamp]
  split
  · rfl
  · exact cell?_updateComponent EntityType.tracking.ident (cell?_sign _ aside) object

/-- An entity after some calls. -/
def stampAll (object : Object) (calls : List StampCall) : Object :=
  calls.foldl (fun object call => object.stamp call.user call.time) object

/-- Stamps on an entity are stamps on its stamps. -/
theorem audit?_stampAll (held : object.audit? = some audit) (calls : List StampCall) :
    (object.stampAll calls).audit? = some (audit.stampAll calls) := by
  induction calls generalizing object audit with
  | nil => exact held
  | cons call rest ih => exact ih (audit?_stamp held call.user call.time)

/-- Stamps keep all columns that do not hold stamps. -/
theorem cell?_stampAll (aside : name ∉ EntityType.tracking.properties) (object : Object)
    (calls : List StampCall) :
    (object.stampAll calls).cell? .table name = object.cell? .table name := by
  induction calls generalizing object with
  | nil => rfl
  | cons call rest ih => exact (ih _).trans (cell?_stamp aside object call.user call.time)

end Object

/-! ### Stamped updates -/

namespace Mapping

variable {mapping : Mapping}

/-- An update after some calls. -/
def stampAll (mapping : Mapping) (calls : List StampCall) : Mapping :=
  calls.foldl (fun mapping call => mapping.stamp call.user call.time) mapping

/-- A signature is found in an update under the names of an updater. -/
theorem find?_stamp_self (mapping : Mapping) (user : String) (time : Timestamp) :
    find? (mapping.stamp (some user) time) "UpdatedBy" = some (.text user) ∧
      find? (mapping.stamp (some user) time) "UpdatedAt" = some (.timestamp time) := by
  rw [stamp, find?_insert_of_ne _ _ (by decide)]
  exact ⟨find?_insert_self _ _ _, find?_insert_self _ _ _⟩

/-- A stamp leaves every other entry of an update. -/
theorem find?_stamp_of_ne (mapping : Mapping) (user : Option String) (time : Timestamp)
    {key : String} (notUser : key ≠ "UpdatedBy") (notTime : key ≠ "UpdatedAt") :
    find? (mapping.stamp user time) key = find? mapping key := by
  cases user with
  | none => rfl
  | some user =>
    rw [stamp, find?_insert_of_ne _ _ (Ne.symm notTime), find?_insert_of_ne _ _ (Ne.symm notUser)]

/-- Stamps leave every other entry of an update. -/
theorem find?_stampAll_of_ne (mapping : Mapping) (calls : List StampCall) {key : String}
    (notUser : key ≠ "UpdatedBy") (notTime : key ≠ "UpdatedAt") :
    find? (mapping.stampAll calls) key = find? mapping key := by
  induction calls generalizing mapping with
  | nil => rfl
  | cons call rest ih =>
    exact (ih _).trans (find?_stamp_of_ne mapping call.user call.time notUser notTime)

/-- The last signature is found in an update. -/
theorem find?_stampAll_of_last (mapping : Mapping) {calls : List StampCall} {user : String}
    {time : Timestamp} (last : (signatures calls).getLast? = some (user, time)) :
    find? (mapping.stampAll calls) "UpdatedBy" = some (.text user) ∧
      find? (mapping.stampAll calls) "UpdatedAt" = some (.timestamp time) := by
  induction calls using List.reverseRecOn with
  | nil => cases last
  | append_singleton calls call ih =>
    obtain ⟨asked, when⟩ := call
    have stamped : mapping.stampAll (calls ++ [⟨asked, when⟩]) =
        (mapping.stampAll calls).stamp asked when := List.foldl_concat ..
    rw [stamped]
    rw [signatures_concat] at last
    cases asked with
    | none => exact ih (by simpa using last)
    | some asked =>
      obtain ⟨rfl, rfl⟩ : asked = user ∧ when = time := by simpa using last
      exact find?_stamp_self _ asked when

/-- Calls without a user do not change an update. -/
theorem stampAll_filter (mapping : Mapping) (calls : List StampCall) :
    mapping.stampAll (calls.filter fun call => call.user.isSome) = mapping.stampAll calls := by
  induction calls generalizing mapping with
  | nil => rfl
  | cons call rest ih =>
    obtain ⟨user, time⟩ := call
    cases user with
    | none => exact ih mapping
    | some user => exact ih (mapping.stamp (some user) time)

end Mapping

/-- After any calls a creator with a name is the one from before, and one without a name is the
first who signed with a name. The updater is the last one who signed, or the one from before, and
nothing else in the entity is changed. An update holds the last signature, all its other entries are
as they were, and calls without a user do not count. -/
theorem Object.audit_trail {object : Object} {initial : Audit} (held : object.audit? = some initial)
    (calls : List StampCall) :
    (∃ final, (object.stampAll calls).audit? = some final ∧
      (initial.createdBy ≠ "" → final.created = initial.created) ∧
      (∀ first, initial.createdBy = "" →
        (signatures calls).find? (fun signature => signature.1 ≠ "") = some first →
          final.created = first) ∧
      final.updated = (signatures calls).getLast?.getD initial.updated) ∧
    (∀ name, name ∉ EntityType.tracking.properties →
      (object.stampAll calls).value? name = object.value? name) ∧
    ∀ mapping : Mapping,
      (∀ user time, (signatures calls).getLast? = some (user, time) →
        find? (mapping.stampAll calls) "UpdatedBy" = some (.text user) ∧
          find? (mapping.stampAll calls) "UpdatedAt" = some (.timestamp time)) ∧
      (∀ key, key ≠ "UpdatedBy" → key ≠ "UpdatedAt" →
        find? (mapping.stampAll calls) key = find? mapping key) ∧
      mapping.stampAll (calls.filter fun call => call.user.isSome) = mapping.stampAll calls := by
  refine ⟨⟨initial.stampAll calls, audit?_stampAll held calls, ?_, ?_, ?_⟩, ?_, fun mapping => ?_⟩
  · exact fun known => Audit.created_stampAll_of_known known calls
  · exact fun first new signed => Audit.created_stampAll_of_new new signed
  · exact Audit.updated_stampAll initial calls
  · exact fun name aside => congrArg (Option.map Cell.toValue) (cell?_stampAll aside object calls)
  · exact ⟨fun _ _ => mapping.find?_stampAll_of_last, fun _ => mapping.find?_stampAll_of_ne calls,
      mapping.stampAll_filter calls⟩

/-- Calls without a user, with an empty name and with two names. -/
def visits : List StampCall :=
  [⟨none, ⟨1⟩⟩, ⟨some "", ⟨2⟩⟩, ⟨some "ada", ⟨3⟩⟩, ⟨none, ⟨4⟩⟩, ⟨some "bob", ⟨5⟩⟩, ⟨none, ⟨6⟩⟩]

/-- A new ticket is created by the first name and updated by the last one, as an update is. -/
theorem Object.audit_trail_ticket :
    (Sample.ticket "desk" "t-1").audit? = some ⟨"", "", .epoch, .epoch⟩ ∧
      (∃ final, ((Sample.ticket "desk" "t-1").stampAll visits).audit? = some final ∧
        final.created = ("ada", ⟨3⟩) ∧ final.updated = ("bob", ⟨5⟩)) ∧
      find? (Mapping.stampAll [("Title", .text "Lamp")] visits) "UpdatedBy" =
        some (.text "bob") := by
  have held : (Sample.ticket "desk" "t-1").audit? = some ⟨"", "", .epoch, .epoch⟩ := rfl
  obtain ⟨⟨final, read, -, created, updated⟩, -, update⟩ := audit_trail held visits
  exact ⟨held, ⟨final, read, created _ rfl rfl, updated⟩, ((update _).1 _ _ rfl).1⟩

end TypedRecord
