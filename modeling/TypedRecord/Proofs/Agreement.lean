import TypedRecord.Proofs.Alteration

/-!
# Reading and assigning agree

An entity can be made from a mapping in two ways. It can read its properties, in its own order and
into the nested entities that it has; or a hydrator can assign the entries, in the order of the keys
and with new nested entities out of the registry. Main statement: where the properties are the names
of the table and a blank entity holds blank entities, both succeed for the same mappings, and what
they make differs at most in what two blank entities differ in, such as generated ids.
-/
namespace TypedRecord

open Entries

/-! ### Entities that are alike -/

mutual

/-- Entities are alike when they are of one type, with the same names and like columns. -/
inductive Object.Alike (same : String → Content → Content → Prop) : Object → Object → Prop
  /-- The names and the columns of an entity are compared. -/
  | mk {first second : Object} (type : first.type = second.type)
    (names : first.names = second.names)
    (cells : ∀ name firstCell secondCell, first.cell? .table name = some firstCell →
      second.cell? .table name = some secondCell → Cell.Alike same name firstCell secondCell) :
    Object.Alike same first second

/-- Columns of a name are alike when their contents are taken for the same there, or they hold
entities that are alike. -/
inductive Cell.Alike (same : String → Content → Content → Prop) : String → Cell → Cell → Prop
  /-- Plain contents are compared. -/
  | plain {name : String} {first second : Content} (content : same name first second) :
    Cell.Alike same name (.plain first) (.plain second)
  /-- Entities are compared. -/
  | entity {name : String} {declared : Declared} {first second : Object}
    (object : Object.Alike same first second) :
    Cell.Alike same name (.entity declared first) (.entity declared second)
  /-- No entity is like no entity. -/
  | vacant {name : String} {declared : Declared} :
    Cell.Alike same name (.vacant declared) (.vacant declared)

end

variable {same : String → Content → Content → Prop}

namespace Object.Alike

variable {first second : Object}

/-- Entities that are alike are of one type. -/
theorem type_eq (alike : Object.Alike same first second) : first.type = second.type := by
  cases alike
  assumption

/-- Entities that are alike have the same names. -/
theorem names_eq (alike : Object.Alike same first second) : first.names = second.names := by
  cases alike
  assumption

/-- The columns of entities that are alike are alike. -/
theorem cell {name : String} {firstCell secondCell : Cell}
    (alike : Object.Alike same first second)
    (firstHeld : first.cell? .table name = some firstCell)
    (secondHeld : second.cell? .table name = some secondCell) :
    Cell.Alike same name firstCell secondCell := by
  obtain ⟨-, -, cells⟩ := alike
  exact cells name firstCell secondCell firstHeld secondHeld

/-- Where one of two entities that are alike has a column, the other one has one. -/
theorem isSome_cell? (alike : Object.Alike same first second) (name : String) :
    (first.cell? .table name).isSome = (second.cell? .table name).isSome := by
  rw [Bool.eq_iff_iff, ← mem_names_iff, ← mem_names_iff, alike.names_eq]

end Object.Alike

mutual

/-- Entities that are alike have the same values, where contents are taken for the same only when
they are equal. -/
theorem Object.Alike.value?_eq
    (equal : ∀ name first second, same name first second → first = second)
    {first second : Object} :
    Object.Alike same first second → ∀ name, first.value? name = second.value? name
  | .mk type names cells, name => by
    have like := fun firstCell secondCell firstHeld secondHeld =>
      Cell.Alike.toValue_eq equal (cells name firstCell secondCell firstHeld secondHeld)
    have both := (Object.Alike.mk type names cells).isSome_cell? name
    rw [Object.value?, Object.value?]
    cases firstHeld : first.cell? .table name with
    | none =>
      rw [firstHeld, Option.isSome_none, eq_comm, Option.isSome_eq_false_iff,
        Option.isNone_iff_eq_none] at both
      rw [both]
    | some firstCell =>
      rw [firstHeld, Option.isSome_some, eq_comm, Option.isSome_iff_exists] at both
      obtain ⟨secondCell, secondHeld⟩ := both
      rw [secondHeld, Option.map_some, Option.map_some,
        like firstCell secondCell firstHeld secondHeld]

/-- Columns that are alike stand for the same value. -/
theorem Cell.Alike.toValue_eq
    (equal : ∀ name first second, same name first second → first = second) {name : String}
    {first second : Cell} : Cell.Alike same name first second → first.toValue = second.toValue
  | .plain content => by rw [equal _ _ _ content]
  | .entity object => by
    rw [Cell.toValue, Cell.toValue]
    exact congrArg Value.map (Object.toMapping_ext (Object.Alike.value?_eq equal object))
  | .vacant => rfl

end

/-! ### How deep a mapping goes -/

/-- The type declared with a column that may hold an entity. -/
def Cell.declared? : Cell → Option Declared
  | .plain _ => none
  | .entity declared _ => some declared
  | .vacant declared => some declared

namespace Registry

mutual

/-- How many levels of entities a mapping has below an entity, where every one is made by the
registry. -/
def nesting (registry : Registry) (object : Object) : List (String × Value) → Nat
  | [] => 0
  | (name, value) :: rest =>
    max (nestingUnder registry (object.cell? .table name) value) (nesting registry object rest)

/-- How many levels of entities a value has in a column. -/
def nestingUnder (registry : Registry) (cell : Option Cell) : Value → Nat
  | .map entries => match cell.bind Cell.declared? with
    | none => 0
    | some declared => match registry.create declared.name with
      | .ok blank => nesting registry blank entries + 1
      | .error _ => 1
  | _ => 0

end

/-- A value has no more levels in its column than its mapping has. -/
theorem nestingUnder_le {registry : Registry} {object : Object} {data : Mapping} {name : String}
    {value : Value} (found : find? data name = some value) :
    registry.nestingUnder (object.cell? .table name) value ≤ registry.nesting object data := by
  induction data with
  | nil => simp [find?] at found
  | cons entry rest ih =>
    obtain ⟨key, held⟩ := entry
    rw [nesting]
    by_cases here : key = name
    · subst here
      simp only [find?, ↓reduceIte, Option.some.injEq] at found
      subst found
      exact Nat.le_max_left _ _
    · simp only [find?, here, ↓reduceIte] at found
      exact (ih found).trans (Nat.le_max_right _ _)

/-- A mapping for an entity made by the registry opens a level. -/
theorem nesting_lt_nestingUnder {registry : Registry} {declared : Declared} {old fresh : Object}
    (created : registry.create declared.name = .ok fresh) (entries : Mapping) :
    registry.nesting fresh entries <
      registry.nestingUnder (some (.entity declared old)) (.map entries) := by
  rw [nestingUnder]
  simp [Cell.declared?, created]

end Registry

/-! ### Uniform entities -/

/-- An entity is uniform when it is aligned, the registry makes entities like it under the name of
its type, and so it is with every entity in its columns, which is of the type that is declared. -/
inductive Object.Uniform (registry : Registry) (same : String → Content → Content → Prop) :
    Object → Prop
  /-- The demands are made of the entity and of the entities in its columns. -/
  | mk {object : Object} (aligned : object.Aligned)
    (registered : ∃ fresh, registry.create object.type.name = .ok fresh ∧
      Object.Alike same object fresh)
    (declares : ∀ name declared inner, object.cell? .table name = some (.entity declared inner) →
      declared.ident = inner.type.ident ∧ declared.name = inner.type.name)
    (inner : ∀ name declared inner, object.cell? .table name = some (.entity declared inner) →
      Object.Uniform registry same inner) : Object.Uniform registry same object

namespace Object.Uniform

variable {registry : Registry} {object : Object}

/-- A uniform entity is aligned. -/
theorem aligned (uniform : object.Uniform registry same) : object.Aligned := by
  cases uniform
  assumption

/-- The registry makes entities like a uniform one, and they can be assigned. -/
theorem exists_fresh (uniform : object.Uniform registry same) :
    ∃ fresh, registry.create object.type.name = .ok fresh ∧ fresh.type.hydratable = true ∧
      Object.Alike same object fresh := by
  have hydratable := uniform.aligned.hydratable
  obtain ⟨-, ⟨fresh, created, alike⟩⟩ := uniform
  exact ⟨fresh, created, alike.type_eq ▸ hydratable, alike⟩

end Object.Uniform

/-! ### One column -/

/-- Two options are related when both hold something or neither does, and then related things. -/
theorem rel_of_isSome_eq {α β : Type} {related : α → β → Prop} {first : Option α}
    {second : Option β} (both : first.isSome = second.isSome)
    (relates : ∀ left right, first = some left → second = some right → related left right) :
    Option.Rel related first second := by
  cases first with
  | none =>
    cases second with
    | none => exact .none
    | some right => simp at both
  | some left =>
    cases second with
    | none => simp at both
    | some right => exact .some (relates left right rfl rfl)

/-- Related options both hold something or neither does. -/
theorem isSome_eq_of_rel {α β : Type} {related : α → β → Prop} {first : Option α}
    {second : Option β} (relation : Option.Rel related first second) :
    first.isSome = second.isSome := by
  cases relation <;> rfl

/-- What is made of related options is related when what is made of related things is. -/
theorem rel_map {α β γ δ : Type} {related : α → β → Prop} {relatedAfter : γ → δ → Prop}
    {first : Option α} {second : Option β} (relation : Option.Rel related first second)
    {makeFirst : α → γ} {makeSecond : β → δ}
    (makes : ∀ left right, related left right → relatedAfter (makeFirst left) (makeSecond right)) :
    Option.Rel relatedAfter (first.map makeFirst) (second.map makeSecond) := by
  cases relation with
  | none => exact .none
  | some holds => exact .some (makes _ _ holds)

namespace Object.AltersAll

variable {first second : Object} {firstChanges secondChanges : String → Cell → Option Cell}
  {firstWork secondWork : Progress Object}

/-- Work on two entities that are alike is complete on both or on neither, when each of their
columns can be changed in both or in neither. -/
theorem isSome_final?_eq (alike : Object.Alike same first second)
    (firstAlters : AltersAll firstChanges first firstWork)
    (secondAlters : AltersAll secondChanges second secondWork)
    (cells : ∀ name firstCell secondCell, first.cell? .table name = some firstCell →
      second.cell? .table name = some secondCell →
        (firstChanges name firstCell).isSome = (secondChanges name secondCell).isSome) :
    firstWork.final?.isSome = secondWork.final?.isSome := by
  have held : ∀ name, (∃ cell, first.cell? .table name = some cell) ↔
      ∃ cell, second.cell? .table name = some cell := fun name => by
    rw [← Option.isSome_iff_exists, ← Option.isSome_iff_exists, alike.isSome_cell? name]
  rw [Bool.eq_iff_iff, Option.isSome_iff_exists, Option.isSome_iff_exists]
  simp only [Progress.final?_eq_some]
  rw [firstAlters.completes, secondAlters.completes]
  constructor
  · intro all name secondCell secondHeld
    obtain ⟨firstCell, firstHeld⟩ := (held name).mpr ⟨secondCell, secondHeld⟩
    rw [← cells name firstCell secondCell firstHeld secondHeld]
    exact all name firstCell firstHeld
  · intro all name firstCell firstHeld
    obtain ⟨secondCell, secondHeld⟩ := (held name).mp ⟨firstCell, firstHeld⟩
    rw [cells name firstCell secondCell firstHeld secondHeld]
    exact all name secondCell secondHeld

/-- Complete work on two entities that are alike leaves them alike, when it leaves each of their
columns alike. -/
theorem alike_of_complete (alike : Object.Alike same first second)
    (firstAlters : AltersAll firstChanges first firstWork)
    (secondAlters : AltersAll secondChanges second secondWork)
    (cells : ∀ name firstCell secondCell, first.cell? .table name = some firstCell →
      second.cell? .table name = some secondCell → Option.Rel (Cell.Alike same name)
        (firstChanges name firstCell) (secondChanges name secondCell))
    {firstFinal secondFinal : Object} (firstDone : firstWork = .complete firstFinal)
    (secondDone : secondWork = .complete secondFinal) :
    Object.Alike same firstFinal secondFinal := by
  refine .mk ?_ ?_ fun name firstCell secondCell firstHeld secondHeld => ?_
  · have kept := fun scope object name cell => type_setCell scope name cell object
    rw [firstAlters.keeps _ firstDone type kept, secondAlters.keeps _ secondDone type kept,
      alike.type_eq]
  · have kept := fun scope object name cell => names_setCell scope name cell object
    rw [firstAlters.keeps _ firstDone names kept, secondAlters.keeps _ secondDone names kept,
      alike.names_eq]
  · rw [firstAlters.leaves _ firstDone, Option.bind_eq_some_iff] at firstHeld
    rw [secondAlters.leaves _ secondDone, Option.bind_eq_some_iff] at secondHeld
    obtain ⟨firstOld, firstWas, firstChanged⟩ := firstHeld
    obtain ⟨secondOld, secondWas, secondChanged⟩ := secondHeld
    have related := cells name firstOld secondOld firstWas secondWas
    rw [firstChanged, secondChanged] at related
    obtain ⟨like⟩ := related
    exact like

/-- Work on two entities that are alike leaves entities that are alike, or nothing of either, when
that is so of each of their columns. -/
theorem rel (alike : Object.Alike same first second)
    (firstAlters : AltersAll firstChanges first firstWork)
    (secondAlters : AltersAll secondChanges second secondWork)
    (cells : ∀ name firstCell secondCell, first.cell? .table name = some firstCell →
      second.cell? .table name = some secondCell → Option.Rel (Cell.Alike same name)
        (firstChanges name firstCell) (secondChanges name secondCell)) :
    Option.Rel (Object.Alike same) firstWork.final? secondWork.final? := by
  apply rel_of_isSome_eq
  · apply isSome_final?_eq alike firstAlters secondAlters
    intro name firstCell secondCell firstHeld secondHeld
    exact isSome_eq_of_rel (cells name firstCell secondCell firstHeld secondHeld)
  · intro firstFinal secondFinal firstLeft secondLeft
    exact alike_of_complete alike firstAlters secondAlters cells
      (Progress.final?_eq_some.mp firstLeft) (Progress.final?_eq_some.mp secondLeft)

end Object.AltersAll

namespace Hydrator

variable {hydrator : Hydrator}

/-- A complete assignment leaves the type of an entity. -/
theorem type_of_assign {levels : Nat} {object final : Object} {values : Mapping}
    (done : hydrator.assign levels object values = .complete final) : final.type = object.type := by
  cases levels with
  | zero => simp [assign, Progress.stop, Progress.complete] at done
  | succ levels =>
    exact view_of_assigned (fun object name cell => object.type_setCell .table name cell) done

/-- What a mapping becomes in a column is what is left of assigning it to a new entity of the
declared type. -/
theorem assignCell?_entity {levels : Nat} {declared : Declared} {cell : Cell} {fresh : Object}
    {name : String} (holds : cell.declared? = some declared)
    (created : hydrator.registry.create declared.name = .ok fresh)
    (hydratable : fresh.type.hydratable = true) (ident : fresh.type.ident = declared.ident)
    (entries : Mapping) :
    assignCell? (hydrator.buildWith (hydrator.assign levels)) name (.map entries) cell =
      (hydrator.assign levels fresh entries).final?.map (.entity declared) := by
  have nested : assignCell (hydrator.buildWith (hydrator.assign levels)) name (.map entries) cell =
      (nest (hydrator.buildWith (hydrator.assign levels)) declared name (.map entries)).map
        (.entity declared) := by
    cases cell with
    | plain content => simp [Cell.declared?] at holds
    | entity _ _ | vacant _ =>
      cases holds
      rfl
  rw [assignCell?, nested, nest, buildWith, created]
  simp only [hydratable, ↓reduceIte]
  cases assigned : hydrator.assign levels fresh entries with
  | mk state stopped =>
    cases stopped with
    | some error => rfl
    | none =>
      have type : state.type = fresh.type := type_of_assign assigned
      simp [Progress.result, Progress.final?, Object.downcast, type, ident, Except.map,
        Except.toOption]

/-- Reading and assigning leave a column alike, where they do in the entities that are in it. -/
theorem rel_column (reflexive : ∀ name content, same name content content)
    (formed : ∀ name first second, same name first second → first.form = second.form)
    {levels : Nat} {name : String} {value : Value} {firstCell secondCell : Cell}
    (alike : Cell.Alike same name firstCell secondCell)
    (occupied : ∀ declared, firstCell ≠ .vacant declared)
    (inner : ∀ declared firstInner secondInner entries, firstCell = .entity declared firstInner →
      secondCell = .entity declared secondInner → value = .map entries →
        ∃ fresh, hydrator.registry.create declared.name = .ok fresh ∧
          fresh.type.hydratable = true ∧ fresh.type.ident = declared.ident ∧
            Option.Rel (Object.Alike same) (firstInner.read entries).final?
              (hydrator.assign levels fresh entries).final?) :
    Option.Rel (Cell.Alike same name) (Cell.read? name value firstCell)
      (assignCell? (hydrator.buildWith (hydrator.assign levels)) name value secondCell) := by
  cases alike with
  | vacant => exact absurd rfl (occupied _)
  | plain content =>
    rw [Cell.read?, assignCell?, assignCell, Content.load_congr (formed name _ _ content)]
    cases Content.load name value _ with
    | error error => exact .none
    | ok loaded => exact .some (.plain (reflexive name loaded))
  | entity object =>
    cases value with
    | map entries =>
      obtain ⟨fresh, created, hydratable, ident, related⟩ := inner _ _ _ entries rfl rfl rfl
      rw [Cell.read?, assignCell?_entity rfl created hydratable ident]
      exact rel_map related fun _ _ like => .entity like
    | _ => exact .none

/-- Reading and assigning leave entities that are alike alike. -/
theorem rel_read_assign (reflexive : ∀ name content, same name content content)
    (formed : ∀ name first second, same name first second → first.form = second.form)
    (unprocessed : hydrator.processors = []) (lenient : hydrator.settings.ignoreUnknown = true)
    {first : Object} (uniform : first.Uniform hydrator.registry same) {second : Object}
    (alike : Object.Alike same first second) {data : Mapping} (ordered : data.Ordered)
    {levels : Nat} (shallow : hydrator.registry.nesting second data ≤ levels) :
    Option.Rel (Object.Alike same) (first.read data).final?
      (hydrator.assign (levels + 1) second data).final? := by
  -- The induction goes into the entities that are read; those assigned are fresh ones like them.
  induction uniform generalizing second data levels with
  | mk aligned registered declares inner ih =>
    refine Object.AltersAll.rel alike (Object.altersAll_read aligned data)
      (altersAll_assign unprocessed ordered.1 levels (.inl lenient)) ?_
    intro name firstCell secondCell firstHeld secondHeld
    have cells := alike.cell firstHeld secondHeld
    rw [Mapping.changes, Mapping.changes]
    cases present : data.present? name with
    | none => exact .some cells
    | some value =>
      refine rel_column reflexive formed cells
        (fun declared vacant => aligned.occupied name declared (vacant ▸ firstHeld)) ?_
      rintro declared firstInner secondInner entries rfl rfl rfl
      obtain ⟨ident, named⟩ := declares name declared firstInner firstHeld
      obtain ⟨fresh, created, hydratable, like⟩ :=
        (inner name declared firstInner firstHeld).exists_fresh
      rw [← named] at created
      refine ⟨fresh, created, hydratable, by rw [ident, like.type_eq], ?_⟩
      have found := data.find?_of_present? present
      -- The mapping opens a level, so at least one is left for it.
      have opened : hydrator.registry.nesting fresh entries < levels :=
        calc hydrator.registry.nesting fresh entries
          _ < hydrator.registry.nestingUnder (second.cell? .table name) (.map entries) :=
            secondHeld ▸ Registry.nesting_lt_nestingUnder created entries
          _ ≤ hydrator.registry.nesting second data := Registry.nestingUnder_le found
          _ ≤ levels := shallow
      obtain ⟨left, rfl⟩ := Nat.exists_eq_add_one_of_ne_zero (Nat.ne_zero_of_lt opened)
      exact ih name declared firstInner firstHeld like (ordered.sorted_of_find? found)
        (Nat.le_of_lt_succ opened)

/-- A hydrator that renames, and otherwise works as one that was just made. -/
def ofRules (registry : Registry) (rules : Rules) : Hydrator :=
  { ofRegistry registry with rules := rules }

/-- An entity is made by reading the renamed mapping when its type travels. -/
theorem createFrom_eq_ok {registry : Registry} {rules : Rules} {name : String} {blank : Object}
    (created : registry.create name = .ok blank) (travels : blank.type.traversal.isSome = true)
    {data : Mapping} {final : Object} :
    registry.createFrom name data rules = .ok final ↔
      (blank.read ((ofRules registry rules).rename data)).final? = some final := by
  rw [Registry.createFrom, created]
  simp only [travels, ↓reduceIte]
  rw [Progress.result_eq_ok, Progress.final?_eq_some]
  rfl

/-- An entity is made by assigning the renamed mapping when its fields can be assigned. -/
theorem create_eq_ok {name : String} {blank : Object}
    (created : hydrator.registry.create name = .ok blank)
    (hydratable : blank.type.hydratable = true) {data : Mapping} {final : Object} :
    hydrator.create name data = .ok final ↔
      (hydrator.assign hydrator.levels blank (hydrator.rename data)).final? = some final := by
  rw [create, buildWith_eq_ok, created, Progress.final?_eq_some]
  simp [hydratable]

/-- An entity of a uniform type is read from a mapping that is not nested too deep exactly when it
is assigned from it, under any rules, and what is read and what is assigned have the same values, up
to what two new entities differ in. -/
theorem createFrom_create_alike {registry : Registry}
    (reflexive : ∀ name content, same name content content)
    (formed : ∀ name first second, same name first second → first.form = second.form)
    {blank : Object} (created : registry.create blank.type.name = .ok blank)
    (uniform : blank.Uniform registry same) (rules : Rules) {data : Mapping}
    (ordered : data.Ordered)
    (shallow : registry.nesting blank ((ofRules registry rules).rename data) ≤
      Settings.standard.maxDepth) :
    ((∃ read, registry.createFrom blank.type.name data rules = .ok read) ↔
      ∃ assigned, (ofRules registry rules).create blank.type.name data = .ok assigned) ∧
    ∀ read assigned, registry.createFrom blank.type.name data rules = .ok read →
      (ofRules registry rules).create blank.type.name data = .ok assigned →
        Object.Alike same read assigned ∧
          ((∀ name first second, same name first second → first = second) →
            ∀ name, read.value? name = assigned.value? name) := by
  have travels := uniform.aligned.travels
  obtain ⟨fresh, again, hydratable, alike⟩ := uniform.exists_fresh
  obtain rfl : fresh = blank := Except.ok.inj (again.symm.trans created)
  have related := @rel_read_assign _ (ofRules registry rules) reflexive formed rfl rfl _ uniform _
    alike _ ((ofRules registry rules).ordered_rename ordered) _ shallow
  have reads := fun read => @createFrom_eq_ok registry rules _ _ created travels data read
  have assigns := fun assigned =>
    @create_eq_ok (ofRules registry rules) _ _ created hydratable data assigned
  constructor
  · simp only [reads, assigns]
    rw [← Option.isSome_iff_exists, ← Option.isSome_iff_exists]
    exact Bool.eq_iff_iff.mp (isSome_eq_of_rel related)
  · intro read assigned readDone assignedDone
    have left := (reads read).mp readDone
    have right : ((ofRules registry rules).assign (Settings.standard.maxDepth + 1) fresh
        ((ofRules registry rules).rename data)).final? = some assigned :=
      (assigns assigned).mp assignedDone
    rw [left, right] at related
    obtain ⟨like⟩ := related
    exact ⟨like, fun equal => like.value?_eq equal⟩

/-- A person by an id that was generated for it and a name. -/
def person (ident name : String) : Object :=
  .mk ⟨"Person", "Person", true, some ["Id", "Name"], none, false⟩
    [("Name", .plain (.scalar .text name))] [.identity ident] []

/-- A note by its title and its author. -/
def note (title : String) (author : Object) : Object :=
  .mk ⟨"Note", "Note", true, some ["Title", "Author"], none, false⟩
    [("Title", .plain (.scalar .text title)),
      ("Author", .entity ⟨"Person", "Person", .reference⟩ author)] [] []

/-- A registry of notes and persons. A person that comes with a note has another id than one that is
made on its own. -/
def notebook : Registry :=
  [("Note", ⟨note "" (person "id-1" ""), false⟩), ("Person", ⟨person "id-2" "", false⟩)]

/-- Contents are the same, or they are texts that identify an entity. -/
def sameButId (name : String) (first second : Content) : Prop :=
  first = second ∨ name = "Id" ∧ first.form = .scalar .text ∧ second.form = .scalar .text

/-- Contents that are the same but for an id are of one form. -/
theorem sameButId_form {name : String} {first second : Content}
    (alike : sameButId name first second) : first.form = second.form := by
  obtain rfl | ⟨-, firstForm, secondForm⟩ := alike
  · rfl
  · rw [firstForm, secondForm]

/-- The columns of a person. -/
theorem cell?_person (ident name key : String) :
    (person ident name).cell? .table key =
      if "Name" = key then some (.plain (.scalar .text name))
      else if "Id" = key then some (.plain (.scalar .text ident)) else none := by
  by_cases first : "Name" = key
  · simp [person, Object.cell?, find?, first]
  · by_cases second : "Id" = key
    · simp [person, Object.cell?, Object.mixedCell?, Object.identity, find?, first, second]
    · simp [person, Object.cell?, Object.mixedCell?, Object.identity, Scope.reveal, find?, first,
        second]

/-- The columns of a note. -/
theorem cell?_note (title key : String) (author : Object) :
    (note title author).cell? .table key =
      if "Title" = key then some (.plain (.scalar .text title))
      else if "Author" = key then some (.entity ⟨"Person", "Person", .reference⟩ author)
      else none := by
  by_cases first : "Title" = key
  · simp [note, Object.cell?, find?, first]
  · by_cases second : "Author" = key
    · simp [note, Object.cell?, find?, first, second]
    · simp [note, Object.cell?, Object.mixedCell?, Scope.reveal, find?, first, second]

/-- Persons of one name are alike whatever their ids are. -/
theorem person_alike (firstIdent secondIdent name : String) :
    Object.Alike sameButId (person firstIdent name) (person secondIdent name) := by
  refine .mk rfl rfl fun key firstCell secondCell firstHeld secondHeld => ?_
  rw [cell?_person] at firstHeld secondHeld
  by_cases named : "Name" = key
  · rw [if_pos named] at firstHeld secondHeld
    cases firstHeld
    cases secondHeld
    exact .plain (.inl rfl)
  · rw [if_neg named] at firstHeld secondHeld
    by_cases identified : "Id" = key
    · rw [if_pos identified] at firstHeld secondHeld
      cases firstHeld
      cases secondHeld
      exact .plain (.inr ⟨identified.symm, rfl, rfl⟩)
    · simp [identified] at firstHeld

/-- A note is like itself. -/
theorem note_alike (title ident name : String) :
    Object.Alike sameButId (note title (person ident name)) (note title (person ident name)) := by
  refine .mk rfl rfl fun key firstCell secondCell firstHeld secondHeld => ?_
  obtain rfl : firstCell = secondCell := Option.some.inj (firstHeld.symm.trans secondHeld)
  rw [cell?_note] at firstHeld
  split at firstHeld
  · cases firstHeld
    exact .plain (.inl rfl)
  · split at firstHeld
    · cases firstHeld
      exact .entity (person_alike ident ident name)
    · simp at firstHeld

/-- Nothing but content stands in a column of a person. -/
theorem plain_of_person {ident name key : String} {cell : Cell}
    (held : (person ident name).cell? .table key = some cell) :
    ∃ content, cell = .plain content := by
  rw [cell?_person] at held
  split at held
  · exact ⟨_, (Option.some.inj held).symm⟩
  · split at held
    · exact ⟨_, (Option.some.inj held).symm⟩
    · simp at held

/-- A person is aligned. -/
theorem person_aligned (ident name : String) : (person ident name).Aligned where
  hydratable := rfl
  travels := rfl
  distinct := show ["Id", "Name"].Nodup by decide
  listed key := show key ∈ ["Id", "Name"] ↔ key ∈ ["Name", "Id"] by simp [or_comm]
  tabled := show ∀ key ∈ ["Name", "Id"], (person ident name).isTabled key = true by
    simp only [List.forall_mem_cons]
    exact ⟨rfl, rfl, nofun⟩
  occupied key declared held := by
    obtain ⟨content, same⟩ := plain_of_person held
    simp at same

/-- A new person is uniform, with any id. -/
theorem person_uniform (ident : String) : (person ident "").Uniform notebook sameButId := by
  refine .mk (person_aligned ident "") ⟨_, rfl, person_alike ident "id-2" ""⟩ ?_ ?_
  all_goals
    intro key declared inner held
    obtain ⟨content, same⟩ := plain_of_person held
    simp at same

/-- A note is aligned. -/
theorem note_aligned (title : String) (author : Object) : (note title author).Aligned where
  hydratable := rfl
  travels := rfl
  distinct := show ["Title", "Author"].Nodup by decide
  listed key := show key ∈ ["Title", "Author"] ↔ key ∈ ["Title", "Author"] from Iff.rfl
  tabled := show ∀ key ∈ ["Title", "Author"], (note title author).isTabled key = true by
    simp only [List.forall_mem_cons]
    exact ⟨rfl, rfl, nofun⟩
  occupied key declared held := by
    rw [cell?_note] at held
    split at held
    · simp at held
    · split at held <;> simp at held

/-- The only entity in a note is its author. -/
theorem entity_of_note {title key : String} {author inner : Object} {declared : Declared}
    (held : (note title author).cell? .table key = some (.entity declared inner)) :
    declared = ⟨"Person", "Person", .reference⟩ ∧ inner = author := by
  rw [cell?_note] at held
  split at held
  · simp at held
  · split at held
    · simpa [eq_comm] using held
    · simp at held

/-- A new note is uniform. -/
theorem note_uniform : (note "" (person "id-1" "")).Uniform notebook sameButId := by
  refine .mk (note_aligned "" _) ⟨_, rfl, note_alike "" "id-1" ""⟩ ?_ ?_
  · intro key declared inner held
    obtain ⟨rfl, rfl⟩ := entity_of_note held
    exact ⟨rfl, rfl⟩
  · intro key declared inner held
    obtain ⟨-, rfl⟩ := entity_of_note held
    exact person_uniform "id-1"

/-- What a note is made from. -/
def scribbled : Mapping :=
  [("Author", .map [("Age", .int 36)]), ("Title", .null), ("writer", .text "Ada")]

/-- The name of a writer goes to the author. -/
def attributing : Rules := Rules.rename [] "writer" "Author.Name"

/-- A note is read from a mapping with a key to be renamed, an unknown one and a null, and assigned
from it; the author that is read keeps the id that came with the note. -/
theorem createFrom_create_alike_note :
    ∃ read assigned, notebook.createFrom "Note" scribbled attributing = .ok read ∧
      (ofRules notebook attributing).create "Note" scribbled = .ok assigned ∧
      Object.Alike sameButId read assigned ∧ read = note "" (person "id-1" "Ada") ∧
      assigned = note "" (person "id-2" "Ada") := by
  have renamed : (ofRules notebook attributing).rename scribbled =
      [("Author", .map [("Age", .int 36), ("Name", .text "Ada")]), ("Title", .null)] := rfl
  have ordered : scribbled.Ordered :=
    ⟨by decide, ⟨⟨by decide, trivial, trivial⟩, trivial, trivial, trivial⟩⟩
  have shallow : notebook.nesting (note "" (person "id-1" ""))
      ((ofRules notebook attributing).rename scribbled) ≤ Settings.standard.maxDepth := by
    rw [renamed]
    decide
  have read : notebook.createFrom "Note" scribbled attributing =
      .ok (note "" (person "id-1" "Ada")) := by
    rw [createFrom_eq_ok rfl rfl, renamed]
    rfl
  have assigned : (ofRules notebook attributing).create "Note" scribbled =
      .ok (note "" (person "id-2" "Ada")) := by
    rw [create_eq_ok rfl rfl, renamed]
    rfl
  have agreed := createFrom_create_alike (fun _ _ => .inl rfl) (fun _ _ _ => sameButId_form)
    (show notebook.create "Note" = .ok (note "" (person "id-1" "")) from rfl) note_uniform
    attributing ordered shallow
  exact ⟨_, _, read, assigned, (agreed.2 _ _ read assigned).1, rfl, rfl⟩

end Hydrator

end TypedRecord
