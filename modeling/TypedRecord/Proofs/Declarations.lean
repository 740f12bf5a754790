import Mathlib.Data.List.Induction
import Mathlib.Data.List.Nodup
import Mathlib.Tactic.Push
import TypedRecord.Declaration.Basic

/-!
# Accepted declarations

Of the fields that are not left out, those that are mixed in keep their names, and the others are
columns under their property names. Fields are unambiguous when none is mixed in and named and no
two columns have one property name. A field offends against the fields before it when it is the one
that makes them ambiguous. Main statement: a declaration with named fields is accepted exactly when
it has no type parameters and its fields are unambiguous, its table lists them in their order, and
the error of any other one is that of the type parameters or else that of the first field that
offends.
-/
namespace TypedRecord

namespace FieldDeclaration

/-- Whether the field is a column of its own. -/
def isColumn (field : FieldDeclaration) : Bool := !field.skip && !field.flatten

/-- Whether the columns of the field are mixed in. -/
def isMixin (field : FieldDeclaration) : Bool := !field.skip && field.flatten

/-- The property names of the columns among fields, in order. -/
def properties (fields : List FieldDeclaration) : List String :=
  (fields.filter isColumn).map property

/-- The identifiers of the fields among others that are mixed in, in order. -/
def mixinIdents (fields : List FieldDeclaration) : List String :=
  (fields.filter isMixin).map ident

/-- No field is mixed in and named, and no two columns have one property name. -/
def Unambiguous (fields : List FieldDeclaration) : Prop :=
  (∀ field ∈ fields, field.isMixin → field.rename = none) ∧ (properties fields).Nodup

instance (fields : List FieldDeclaration) : Decidable (Unambiguous fields) :=
  inferInstanceAs (Decidable (_ ∧ _))

/-- A field offends against the fields before it: it is mixed in and named, or it is a column under
the property name of one of theirs. -/
inductive Offends (before : List FieldDeclaration) (field : FieldDeclaration) :
    DeclarationError → Prop where
  /-- The field is mixed in and named. -/
  | flattenRenamed (mixin : field.isMixin) (named : field.rename.isSome) :
    Offends before field .flattenRenamed
  /-- The field is a column and its property name is taken. -/
  | duplicate (column : field.isColumn) (taken : field.property ∈ properties before) :
    Offends before field (.duplicate field.property)

/-- The first field that offends against those before it, with its error. -/
def FirstOffence (fields : List FieldDeclaration) (error : DeclarationError) : Prop :=
  ∃ before field after, fields = before ++ field :: after ∧
    (∀ earlier other later, before = earlier ++ other :: later →
      ∀ cause, ¬ Offends earlier other cause) ∧
    Offends before field error

variable {fields before : List FieldDeclaration} {field : FieldDeclaration}

/-! ### One more field -/

/-- A field offends against none of those before it when it keeps its name if it is mixed in, and
has a free one if it is a column. -/
theorem forall_not_offends_iff :
    (∀ error, ¬ Offends before field error) ↔
      (field.isMixin → field.rename = none) ∧
        (field.isColumn → field.property ∉ properties before) := by
  constructor
  · intro innocent
    refine ⟨fun mixin => ?_, fun column taken => innocent _ (.duplicate column taken)⟩
    by_contra named
    exact innocent _ (.flattenRenamed mixin (Option.isSome_iff_ne_none.mpr named))
  · rintro ⟨unnamed, free⟩ error (⟨mixin, named⟩ | ⟨column, taken⟩)
    · rw [unnamed mixin] at named
      simp at named
    · exact free column taken

/-- Unambiguous fields stay so with one more exactly when it does not offend against them. -/
theorem unambiguous_concat_iff :
    Unambiguous (fields ++ [field]) ↔
      Unambiguous fields ∧ ∀ error, ¬ Offends fields field error := by
  have distinct : (properties (fields ++ [field])).Nodup ↔
      (properties fields).Nodup ∧ (field.isColumn → field.property ∉ properties fields) := by
    by_cases column : field.isColumn
    · have last : properties (fields ++ [field]) = (properties fields).concat field.property := by
        simp [properties, column]
      rw [last, List.nodup_concat]
      tauto
    · simp [properties, column]
  rw [forall_not_offends_iff, Unambiguous, Unambiguous, distinct]
  simp only [List.forall_mem_append, List.forall_mem_singleton]
  tauto

/-- Fields are unambiguous when none of them offends against those before it. -/
theorem unambiguous_iff_forall_not_offends :
    Unambiguous fields ↔ ∀ earlier other later, fields = earlier ++ other :: later →
      ∀ cause, ¬ Offends earlier other cause := by
  induction fields using List.reverseRecOn with
  | nil => simp [Unambiguous, properties]
  | append_singleton init last ih =>
    rw [unambiguous_concat_iff, ih]
    constructor
    · rintro ⟨inside, innocent⟩ earlier other later split
      rcases List.eq_nil_or_concat' later with rfl | ⟨more, final, rfl⟩
      · obtain ⟨rfl, same⟩ := List.append_inj' split rfl
        cases same
        exact innocent
      · rw [← List.cons_append, ← List.append_assoc] at split
        exact inside earlier other more (List.append_inj_left' split rfl)
    · intro innocent
      refine ⟨fun earlier other later split => ?_, innocent init last [] rfl⟩
      exact innocent earlier other (later ++ [last]) (by simp [split])

/-- Fields are unambiguous, or one of them is the first to offend. -/
theorem unambiguous_or_exists_firstOffence (fields : List FieldDeclaration) :
    Unambiguous fields ∨ ∃ error, FirstOffence fields error := by
  induction fields using List.reverseRecOn with
  | nil => exact .inl (by simp [Unambiguous, properties])
  | append_singleton init last ih =>
    rcases ih with unambiguous | ⟨error, before, field, after, rfl, innocent, offends⟩
    · by_cases clean : ∀ error, ¬ Offends init last error
      · exact .inl (unambiguous_concat_iff.mpr ⟨unambiguous, clean⟩)
      · push Not at clean
        obtain ⟨error, offends⟩ := clean
        exact .inr ⟨error, init, last, [], rfl,
          unambiguous_iff_forall_not_offends.mp unambiguous, offends⟩
    · exact .inr ⟨error, before, field, after ++ [last], by simp, innocent, offends⟩

end FieldDeclaration

/-! ### The table that is read from the fields -/

namespace FieldTable

open FieldDeclaration

variable {fields before after : List FieldDeclaration} {field : FieldDeclaration}
  {error : DeclarationError}

/-- Fields are read from front to back: those after some others are read with the property names of
these taken. -/
theorem ofFields_append (seen : List String) (before after : List FieldDeclaration) :
    ofFields seen (before ++ after) =
      match ofFields seen before with
      | .error error => .error error
      | .ok table => (ofFields (table.own.reverse ++ seen) after).map fun rest =>
          ⟨table.own ++ rest.own, table.flat ++ rest.flat⟩ := by
  induction before generalizing seen with
  | nil =>
    simp only [List.nil_append, ofFields, List.reverse_nil]
    cases ofFields seen after <;> rfl
  | cons field rest ih =>
    simp only [List.cons_append, ofFields]
    split
    · exact ih seen
    · split
      · split
        · rfl
        · rw [ih seen]
          cases ofFields seen rest with
          | error error => rfl
          | ok table =>
            simp only [Except.map]
            cases ofFields (table.own.reverse ++ seen) after <;> rfl
      · split
        · rfl
        · rw [ih (field.property :: seen)]
          cases ofFields (field.property :: seen) rest with
          | error error => rfl
          | ok table =>
            simp only [Except.map, List.reverse_cons, List.append_assoc, List.singleton_append]
            cases ofFields (table.own.reverse ++ field.property :: seen) after <;> rfl

/-- A field that does not offend is read as a column, mixed in or left out. -/
theorem ofFields_singleton {seen : List String}
    (taken : ∀ name, name ∈ seen ↔ name ∈ properties before)
    (innocent : ∀ error, ¬ Offends before field error) :
    ofFields seen [field] = .ok ⟨properties [field], mixinIdents [field]⟩ := by
  obtain ⟨unnamed, free⟩ := forall_not_offends_iff.mp innocent
  rw [← taken] at free
  cases skip : field.skip <;> cases flatten : field.flatten <;>
    simp_all [ofFields, properties, mixinIdents, isColumn, isMixin, Except.map]

/-- A field that offends is the error, whatever comes after it. -/
theorem ofFields_of_offends {seen : List String}
    (taken : ∀ name, name ∈ seen ↔ name ∈ properties before)
    (offends : Offends before field error) :
    ofFields seen (field :: after) = .error error := by
  cases offends with
  | flattenRenamed mixin named =>
    obtain ⟨kept, flatten⟩ : field.skip = false ∧ field.flatten = true := by
      simpa [isMixin] using mixin
    simp [ofFields, kept, flatten, named]
  | duplicate column held =>
    obtain ⟨kept, plain⟩ : field.skip = false ∧ field.flatten = false := by
      simpa [isColumn] using column
    simp [ofFields, kept, plain, (taken field.property).mpr held]

/-- Unambiguous fields are read as their columns and their mixed in fields, in order. -/
theorem ofFields_of_unambiguous (unambiguous : Unambiguous fields) :
    ofFields [] fields = .ok ⟨properties fields, mixinIdents fields⟩ := by
  induction fields using List.reverseRecOn with
  | nil => rfl
  | append_singleton init last ih =>
    obtain ⟨inside, innocent⟩ := unambiguous_concat_iff.mp unambiguous
    have step : ofFields ((properties init).reverse ++ []) [last] =
        .ok ⟨properties [last], mixinIdents [last]⟩ := ofFields_singleton (by simp) innocent
    simp only [ofFields_append, ih inside, step, Except.map]
    simp [properties, mixinIdents]

/-- The first field that offends is the error. -/
theorem ofFields_of_firstOffence (offence : FirstOffence fields error) :
    ofFields [] fields = .error error := by
  obtain ⟨before, field, after, rfl, innocent, offends⟩ := offence
  have read := ofFields_of_unambiguous (unambiguous_iff_forall_not_offends.mpr innocent)
  have step : ofFields ((properties before).reverse ++ []) (field :: after) =
      .error error := ofFields_of_offends (by simp) offends
  simp only [ofFields_append, read, step, Except.map]

/-- Fields are read as a table exactly when they are unambiguous, and the table lists them in their
order. -/
theorem ofFields_eq_ok_iff {table : FieldTable} :
    ofFields [] fields = .ok table ↔
      Unambiguous fields ∧ table = ⟨properties fields, mixinIdents fields⟩ := by
  rcases unambiguous_or_exists_firstOffence fields with unambiguous | ⟨error, offence⟩
  · simp [ofFields_of_unambiguous unambiguous, unambiguous, eq_comm]
  · have ambiguous : ¬ Unambiguous fields := by
      intro unambiguous
      have read := ofFields_of_unambiguous unambiguous
      rw [ofFields_of_firstOffence offence] at read
      cases read
    simp [ofFields_of_firstOffence offence, ambiguous]

/-- Fields are refused with the error of the first of them that offends. -/
theorem ofFields_eq_error_iff :
    ofFields [] fields = .error error ↔ FirstOffence fields error := by
  refine ⟨fun refused => ?_, ofFields_of_firstOffence⟩
  rcases unambiguous_or_exists_firstOffence fields with unambiguous | ⟨first, offence⟩
  · rw [ofFields_of_unambiguous unambiguous] at refused
    cases refused
  · rw [ofFields_of_firstOffence offence] at refused
    cases refused
    exact offence

end FieldTable

namespace TypeDeclaration

open FieldDeclaration

/-- The table of an accepted declaration is that of its fields. -/
theorem ofFields_of_table {declaration : TypeDeclaration} {table : FieldTable}
    (accepted : declaration.table = .ok table) :
    FieldTable.ofFields [] declaration.fields = .ok table := by
  unfold TypeDeclaration.table at accepted
  split at accepted
  · cases accepted
  · split at accepted
    · cases accepted
    · exact accepted

/-- A declaration with named fields is accepted exactly when it has no type parameters and its
fields are unambiguous. Then its table has the property names of the columns and the fields that are
mixed in, both in the order of the declaration. Otherwise the error is that of the type parameters,
if there are any, and else that of the first field that offends against those before it. -/
theorem table_of_named {declaration : TypeDeclaration} (named : declaration.shape = .named) :
    ((∃ table, declaration.table = .ok table) ↔
      declaration.generic = false ∧ Unambiguous declaration.fields) ∧
    (∀ table, declaration.table = .ok table →
      table.own = properties declaration.fields ∧ table.flat = mixinIdents declaration.fields) ∧
    ∀ error, declaration.table = .error error ↔
      if declaration.generic then error = .generic else FirstOffence declaration.fields error := by
  cases generic : declaration.generic with
  | true =>
    have refused : declaration.table = .error .generic := by simp [table, named, generic]
    simp [refused, eq_comm]
  | false =>
    have read : declaration.table = FieldTable.ofFields [] declaration.fields := by
      simp [table, named, generic]
    rw [read]
    refine ⟨?_, ?_, ?_⟩
    · simp [FieldTable.ofFields_eq_ok_iff]
    · intro table accepted
      obtain ⟨-, rfl⟩ := FieldTable.ofFields_eq_ok_iff.mp accepted
      exact ⟨rfl, rfl⟩
    · intro error
      simpa using FieldTable.ofFields_eq_error_iff

/-- A ticket: what identifies it is mixed in, its priority has a name of its own, and what is cached
with it is left out whatever else it says. -/
def ticket : TypeDeclaration where
  ident := "Ticket"
  name := none
  serializable := true
  storable := true
  generic := false
  shape := .named
  fields :=
    [⟨"title", none, false, false⟩, ⟨"identity", none, true, false⟩,
      ⟨"priority", some "Prio", false, false⟩, ⟨"cache", some "Title", true, true⟩,
      ⟨"r#type", none, false, false⟩]

/-- A ticket with a second column for its type and a field that is mixed in and named. -/
def crowdedTicket : TypeDeclaration :=
  { ticket with
    fields := ticket.fields ++
      [⟨"kind", some "Type", false, false⟩, ⟨"history", some "Past", true, false⟩] }

/-- The ticket is accepted with its table, and the crowded one is refused for the first of the two
fields that offend. -/
theorem table_of_named_ticket :
    ticket.shape = .named ∧ ticket.table = .ok ⟨["Title", "Prio", "Type"], ["identity"]⟩ ∧
      crowdedTicket.shape = .named ∧ crowdedTicket.table = .error (.duplicate "Type") := by
  obtain ⟨accepted, listed, -⟩ := table_of_named (show ticket.shape = .named from rfl)
  obtain ⟨-, -, refused⟩ := table_of_named (show crowdedTicket.shape = .named from rfl)
  have unambiguous : Unambiguous ticket.fields := by decide
  obtain ⟨table, read⟩ := accepted.mpr ⟨rfl, unambiguous⟩
  obtain ⟨own, flat⟩ := listed table read
  have offence : FirstOffence crowdedTicket.fields (.duplicate "Type") :=
    ⟨ticket.fields, ⟨"kind", some "Type", false, false⟩,
      [⟨"history", some "Past", true, false⟩], rfl,
      unambiguous_iff_forall_not_offends.mp unambiguous, .duplicate rfl (by decide)⟩
  have columns : properties ticket.fields = ["Title", "Prio", "Type"] := by decide
  have mixins : mixinIdents ticket.fields = ["identity"] := by decide
  refine ⟨rfl, ?_, rfl, (refused _).mpr offence⟩
  rw [read, ← columns, ← mixins, ← own, ← flat]

end TypeDeclaration

end TypedRecord
