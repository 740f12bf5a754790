import TypedRecord.Proofs.Likeness
import TypedRecord.Proofs.Runs

/-!
# Unknown keys

A hydrator skips unknown keys or refuses them. Which keys are known is told by the mapping and by
the entities that the registry makes. Main statement: a hydrator that refuses unknown keys makes
exactly what one that skips them makes of the mappings in which all keys are known, at any level,
and nothing of any other mapping; what two registries make anew may differ, as generated ids do, and
then the results differ in nothing else.
-/
namespace TypedRecord

open Entries

namespace Hydrator

variable {hydrator : Hydrator}

/-- A hydrator that skips unknown keys, or one that refuses them. -/
def withIgnoreUnknown (hydrator : Hydrator) (ignore : Bool) : Hydrator :=
  { hydrator with settings := { hydrator.settings with ignoreUnknown := ignore } }

/-! ### Known keys -/

/-- A mapping has only known keys for an entity when every key whose processed value is not null is
a name of the table, and so it is in every map that an entity is built from. -/
inductive KnowsKeys (hydrator : Hydrator) : Object → Mapping → Prop where
  /-- The keys of the mapping and those of the maps within it are known. -/
  | mk {object : Object} {values : Mapping}
    (known : ∀ key raw value, (key, raw) ∈ values → hydrator.process key raw = .ok value →
      value.isNull = false → key ∈ object.names)
    (inner : ∀ key raw entries cell declared blank, (key, raw) ∈ values →
      hydrator.process key raw = .ok (.map entries) → object.cell? .table key = some cell →
        cell.declared? = some declared → hydrator.registry.create declared.name = .ok blank →
          KnowsKeys hydrator blank entries) :
    KnowsKeys hydrator object values

/-- A column that is assigned is so as well with whatever builds all that was built for it. -/
theorem assignCell_mono {build other : String → Mapping → Except Error Object} {key : String}
    {value : Value} {cell changed : Cell}
    (builds : ∀ declared entries built, cell.declared? = some declared → value = .map entries →
      build declared.name entries = .ok built → other declared.name entries = .ok built)
    (assigned : assignCell build key value cell = .ok changed) :
    assignCell other key value cell = .ok changed := by
  cases holds : cell.declared? with
  | none =>
    cases cell with
    | plain content => exact assigned
    | entity _ _ | vacant _ => cases holds
  | some declared =>
    rw [assignCell_of_declared? _ _ _ holds, exceptMap_eq_ok] at assigned ⊢
    obtain ⟨built, nested, result⟩ := assigned
    obtain ⟨entries, isMap, made, ident⟩ := nest_eq_ok.mp nested
    exact ⟨built, nest_eq_ok.mpr ⟨entries, isMap, builds declared entries built holds isMap made,
      ident⟩, result⟩

/-- A mapping that is assigned completely is so as well when more keys are skipped, or when all keys
are known. -/
theorem assign_withIgnoreUnknown {before after : Bool} {levels : Nat} {object final : Object}
    {values : Mapping}
    (allowed : after = true ∨ hydrator.KnowsKeys object values)
    (done : (hydrator.withIgnoreUnknown before).assign levels object values = .complete final) :
    (hydrator.withIgnoreUnknown after).assign levels object values = .complete final := by
  induction levels generalizing object final values with
  | zero => cases done
  | succ levels ih =>
    refine complete_of_sameSlots (fun key raw member reached next same completes => ?_) done
    cases completes with
    | null processed null => exact .null processed null
    | skipped processed present absent _ =>
      -- a known key has a column at the start, and so in every state of the run
      obtain lenient | ⟨known, -⟩ := allowed
      · exact .skipped processed present absent lenient
      · have held := (object.mem_names_iff key).mp (known key raw _ member processed present)
        rw [same.cell?_eq_none absent] at held
        cases held
    | assigned processed present held assigned =>
      refine .assigned processed present held (assignCell_mono ?_ assigned)
      rintro declared entries built holds rfl made
      obtain ⟨blank, created, hydratable, inside⟩ := buildWith_eq_ok.mp made
      refine buildWith_eq_ok.mpr ⟨blank, created, hydratable, ih ?_ inside⟩
      refine allowed.imp_right fun knows => ?_
      obtain ⟨-, inner⟩ := knows
      obtain ⟨cell, start, slot⟩ := same.exists_cell held
      rw [Cell.declared?_congr slot.symm] at holds
      exact inner key raw entries cell declared blank member processed start holds created

/-- Where unknown keys are refused, the keys of a mapping that is assigned completely are known. -/
theorem knowsKeys_of_assign {levels : Nat} {object final : Object} {values : Mapping}
    (done : (hydrator.withIgnoreUnknown false).assign levels object values = .complete final) :
    hydrator.KnowsKeys object values := by
  induction levels generalizing object final values with
  | zero => cases done
  | succ levels ih =>
    refine .mk (fun key raw value member processed present => ?_)
      fun key raw entries cell declared blank member processed held holds created => ?_
    · obtain ⟨reached, next, same, stepped⟩ := entries_of_complete done _ member
      rw [Object.mem_names_iff, ← Option.isSome_map, ← same key, Option.isSome_map]
      cases completes_iff.mp stepped with
      | null again null =>
        cases processed.symm.trans again
        cases present.symm.trans null
      | skipped _ _ _ lenient => cases lenient
      | assigned _ _ held _ => rw [held, Option.isSome_some]
    · obtain ⟨reached, next, same, stepped⟩ := entries_of_complete done _ member
      obtain ⟨cell, held, slot⟩ := same.symm.exists_cell held
      rw [Cell.declared?_congr slot.symm] at holds
      obtain ⟨built, inside⟩ := exists_built_of_complete stepped processed held holds created
      exact ih inside

/-! ### Strict and lenient hydrations -/

variable {same : String → Content → Content → Prop}

/-- A strict outcome is a lenient one with a condition: it is a success exactly when the condition
holds and the lenient one is a success, and then both have made the same. -/
structure Restricts (related : Object → Object → Prop) (strict lenient : Except Error Object)
    (condition : Prop) : Prop where
  /-- The strict outcome is a success exactly when the lenient one is and the condition holds. -/
  succeeds : (∃ final, strict = .ok final) ↔ (∃ final, lenient = .ok final) ∧ condition
  /-- Two successes have made the same. -/
  agrees : ∀ first second, strict = .ok first → lenient = .ok second → related first second

namespace Restricts

variable {related : Object → Object → Prop} {strict lenient other : Except Error Object}
  {condition : Prop}

/-- An outcome that is a success of the same under a condition is restricted by it. -/
theorem of_iff (same : ∀ final, strict = .ok final ↔ lenient = .ok final ∧ condition) :
    Restricts Eq strict lenient condition where
  succeeds := by simp only [same, exists_and_right]
  agrees first second made again := Except.ok.inj (((same first).mp made).1.symm.trans again)

/-- A restriction of one outcome is one of any other outcome that is related to it. -/
theorem of_rel (restricts : Restricts Eq strict lenient condition)
    (relation : Option.Rel related lenient.toOption other.toOption) :
    Restricts related strict other condition := by
  cases lenient <;> cases other <;> cases relation
  · exact ⟨by simpa using restricts.succeeds, fun _ _ _ second => by cases second⟩
  · next left right related =>
    refine ⟨by simpa using restricts.succeeds, fun first second made again => ?_⟩
    cases again
    cases restricts.agrees first left made rfl
    exact related

end Restricts

/-- Assigning strictly restricts assigning leniently to the mappings with known keys. -/
theorem restricts_assign (hydrator : Hydrator) (levels : Nat) (object : Object)
    (values : Mapping) :
    Restricts Eq ((hydrator.withIgnoreUnknown false).assign levels object values).result
      ((hydrator.withIgnoreUnknown true).assign levels object values).result
      (hydrator.KnowsKeys object values) := by
  refine .of_iff fun final => ?_
  rw [Progress.result_eq_ok, Progress.result_eq_ok]
  constructor
  · intro done
    exact ⟨assign_withIgnoreUnknown (.inl rfl) done, knowsKeys_of_assign done⟩
  · rintro ⟨done, knows⟩
    exact assign_withIgnoreUnknown (.inr knows) done

/-- Making an entity strictly restricts making it leniently to the mappings with keys that are known
for a blank one. -/
theorem restricts_create (hydrator : Hydrator) (name : String) (values : Mapping) :
    Restricts Eq ((hydrator.withIgnoreUnknown false).create name values)
      ((hydrator.withIgnoreUnknown true).create name values)
      (∀ blank, hydrator.registry.create name = .ok blank →
        hydrator.KnowsKeys blank (hydrator.rename values)) := by
  refine .of_iff fun final => ?_
  rw [create, create, buildWith_eq_ok, buildWith_eq_ok]
  constructor
  · rintro ⟨blank, created, hydratable, done⟩
    refine ⟨⟨blank, created, hydratable, assign_withIgnoreUnknown (.inl rfl) done⟩,
      fun other again => ?_⟩
    cases created.symm.trans again
    exact knowsKeys_of_assign done
  · rintro ⟨⟨blank, created, hydratable, done⟩, knows⟩
    exact ⟨blank, created, hydratable,
      assign_withIgnoreUnknown (.inr (knows blank created)) done⟩

/-- A hydrator that refuses unknown keys restricts one that skips them to the mappings in which all
keys are known, whether it assigns to an entity or makes a new one; and that up to what new entities
differ in, if the two make them with different registries. -/
theorem restricts_withIgnoreUnknown (reflexive : ∀ name content, same name content content)
    (formed : ∀ name first second, same name first second → first.form = second.form)
    {registry : Registry} (alike : Registry.Alike same hydrator.registry registry)
    (object : Object) (name : String) (values : Mapping) :
    Restricts Eq ((hydrator.withIgnoreUnknown false).setFields object values).result
        ((hydrator.withIgnoreUnknown true).setFields object values).result
        (hydrator.KnowsKeys object (hydrator.rename values)) ∧
      Restricts Eq ((hydrator.withIgnoreUnknown false).create name values)
        ((hydrator.withIgnoreUnknown true).create name values)
        (∀ blank, hydrator.registry.create name = .ok blank →
          hydrator.KnowsKeys blank (hydrator.rename values)) ∧
      Restricts (Object.Alike same)
        ((hydrator.withIgnoreUnknown false).setFields object values).result
        (((hydrator.withIgnoreUnknown true).withRegistry registry).setFields object values).result
        (hydrator.KnowsKeys object (hydrator.rename values)) ∧
      Restricts (Object.Alike same) ((hydrator.withIgnoreUnknown false).create name values)
        (((hydrator.withIgnoreUnknown true).withRegistry registry).create name values)
        (∀ blank, hydrator.registry.create name = .ok blank →
          hydrator.KnowsKeys blank (hydrator.rename values)) := by
  have assigned := restricts_assign hydrator hydrator.levels object (hydrator.rename values)
  have made := restricts_create hydrator name values
  have alikeToo : Registry.Alike same (hydrator.withIgnoreUnknown true).registry registry := alike
  have relatedAssigned := rel_assign reflexive formed alikeToo hydrator.levels
    (Object.alike_refl reflexive object) (hydrator.rename values)
  have relatedMade := rel_buildWith alikeToo
    (fun _ _ entries blanks => rel_assign reflexive formed alikeToo hydrator.levels blanks entries)
    name (hydrator.rename values)
  rw [← Progress.toOption_result, ← Progress.toOption_result] at relatedAssigned
  simp only [setFields, Progress.result_allOrNothing]
  exact ⟨assigned, made, assigned.of_rel relatedAssigned, made.of_rel relatedMade⟩

/-- A registry like `notebook`, with other ids. -/
def notebookAgain : Registry :=
  [("Note", ⟨note "" (person "id-3" ""), false⟩), ("Person", ⟨person "id-4" "", false⟩)]

/-- What the registries of notes and persons make is alike. -/
theorem notebook_alike : Registry.Alike sameButId notebook notebookAgain := by
  intro name
  by_cases first : "Note" = name
  · subst first
    have person : Cell.Alike sameButId "Author"
        (.entity ⟨"Person", "Person", .reference⟩ (person "id-1" ""))
        (.entity ⟨"Person", "Person", .reference⟩ (person "id-3" "")) :=
      .entity (person_alike "id-1" "id-3" "")
    exact .some ((note_alike "" "id-1" "").setCell rfl person)
  · by_cases second : "Person" = name
    · subst second
      exact .some (person_alike "id-2" "id-4" "")
    · simp [notebook, notebookAgain, Registry.create, Registry.factory, find?, first, second,
        Except.map, Except.toOption]

/-- The age of an author is skipped or refused. Without it a note is made by either hydrator, and
the author has another id if another registry makes it. -/
theorem restricts_withIgnoreUnknown_note :
    (((ofRules notebook attributing).withIgnoreUnknown true).create "Note" scribbled =
        .ok (note "" (person "id-2" "Ada")) ∧
      ∀ final, ((ofRules notebook attributing).withIgnoreUnknown false).create "Note" scribbled ≠
        .ok final) ∧
    ((ofRegistry notebook).withIgnoreUnknown false).create "Note"
        [("Author", .map [("Name", .text "Ada")])] = .ok (note "" (person "id-2" "Ada")) ∧
      (((ofRegistry notebook).withIgnoreUnknown true).withRegistry notebookAgain).create "Note"
        [("Author", .map [("Name", .text "Ada")])] = .ok (note "" (person "id-4" "Ada")) ∧
      Object.Alike sameButId (note "" (person "id-2" "Ada")) (note "" (person "id-4" "Ada")) := by
  have alike : Registry.Alike sameButId (ofRules notebook attributing).registry notebookAgain :=
    notebook_alike
  have scribble := (restricts_withIgnoreUnknown (fun _ _ => .inl rfl) (fun _ _ _ => sameButId_form)
    alike (note "" (person "id-1" "")) "Note" scribbled).2.1
  have alikeToo : Registry.Alike sameButId (ofRegistry notebook).registry notebookAgain :=
    notebook_alike
  have plain := (restricts_withIgnoreUnknown (fun _ _ => .inl rfl) (fun _ _ _ => sameButId_form)
    alikeToo (note "" (person "id-1" "")) "Note" [("Author", .map [("Name", .text "Ada")])]).2.2.2
  have renamed : (ofRules notebook attributing).rename scribbled =
      [("Author", .map [("Age", .int 36), ("Name", .text "Ada")]), ("Title", .null)] := rfl
  have unknown : ¬ (ofRules notebook attributing).KnowsKeys (note "" (person "id-1" ""))
      ((ofRules notebook attributing).rename scribbled) := by
    rw [renamed]
    rintro ⟨-, inner⟩
    obtain ⟨known, -⟩ := inner "Author" _ [("Age", .int 36), ("Name", .text "Ada")]
      (.entity ⟨"Person", "Person", .reference⟩ (person "id-1" ""))
      ⟨"Person", "Person", .reference⟩ (person "id-2" "") List.mem_cons_self rfl rfl rfl rfl
    have named : "Age" ∈ (person "id-2" "").names :=
      known "Age" (.int 36) (.int 36) List.mem_cons_self rfl rfl
    exact absurd named (by decide)
  refine ⟨⟨?_, fun final made => ?_⟩, rfl, rfl, plain.agrees _ _ rfl rfl⟩
  · show Hydrator.buildWith _ _ "Note" ((ofRules notebook attributing).rename scribbled) = _
    rw [renamed]
    rfl
  · exact unknown ((scribble.succeeds.mp ⟨final, made⟩).2 _ rfl)

end Hydrator

end TypedRecord
