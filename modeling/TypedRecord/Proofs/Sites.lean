import TypedRecord.Entity.Component
import TypedRecord.Proofs.Tables

/-!
# Where columns are stored

A site says where a column of the table of an entity is stored: at a position among the own columns,
or at a site of one of the entities mixed in. Every site holds one column, and an assignment at a
site changes what is held there and nowhere else. A name leads to a site, to a value and into the
list of names by a walk through the entity of its own. Main statement: the three walks agree, under
shadowed names as well. They know the same names, the value that is found is that of the column at
the site that is found, and what is assigned there is the new value of the name and of no other.
-/
namespace TypedRecord

open Entries

namespace Entries

variable {α : Type}

/-- The key of an entry is one of the keys. -/
theorem mem_keys_of_getElem? {entries : Entries α} {position : Nat} {key : String} {value : α}
    (there : entries[position]? = some (key, value)) : key ∈ keys entries :=
  List.mem_map.mpr ⟨(key, value), List.mem_of_getElem? there, rfl⟩

/-- The position of the first entry with a key. -/
def position? (entries : Entries α) (key : String) : Option Nat :=
  entries.findIdx? fun entry => entry.1 == key

/-- The first entry has the position of its key, and every later one counts from it. -/
theorem position?_cons (held key : String) (value : α) (rest : Entries α) :
    position? ((held, value) :: rest) key =
      if held = key then some 0 else (position? rest key).map (· + 1) := by
  simp [position?, List.findIdx?_cons]

/-- What is found under a key stands at its position. -/
theorem getElem?_of_position? {entries : Entries α} {key : String} {position : Nat}
    (first : position? entries key = some position) :
    ∃ value, entries[position]? = some (key, value) ∧ find? entries key = some value := by
  induction entries generalizing position with
  | nil => simp [position?] at first
  | cons entry rest ih =>
    obtain ⟨held, old⟩ := entry
    rw [position?_cons] at first
    by_cases same : held = key
    · subst same
      rw [if_pos rfl, Option.some.injEq] at first
      exact ⟨old, by simp [← first], by simp [find?]⟩
    · rw [if_neg same, Option.map_eq_some_iff] at first
      obtain ⟨later, found, rfl⟩ := first
      obtain ⟨value, there, reached⟩ := ih found
      exact ⟨value, by simpa using there, by simpa [find?, same] using reached⟩

/-- A key has a position when something is found under it. -/
theorem isSome_position? (entries : Entries α) (key : String) :
    (position? entries key).isSome = (find? entries key).isSome := by
  induction entries with
  | nil => rfl
  | cons entry rest ih =>
    obtain ⟨held, old⟩ := entry
    rw [position?_cons]
    by_cases same : held = key <;> simp [find?, same, ih]

/-- A key has no position when nothing is found under it. -/
theorem position?_eq_none_iff {entries : Entries α} {key : String} :
    position? entries key = none ↔ find? entries key = none := by
  rw [← Option.isNone_iff_eq_none, ← Option.isNone_iff_eq_none, ← Option.not_isSome,
    ← Option.not_isSome, isSome_position?]

/-- The value under a key is replaced at the position of the key. -/
theorem replace_of_position? {entries : Entries α} {key : String} {position : Nat}
    (first : position? entries key = some position) (value : α) :
    replace entries key value = entries.modify position fun entry => (entry.1, value) := by
  induction entries generalizing position with
  | nil => simp [position?] at first
  | cons entry rest ih =>
    obtain ⟨held, old⟩ := entry
    rw [position?_cons] at first
    by_cases same : held = key
    · rw [if_pos same, Option.some.injEq] at first
      subst first
      simp [replace, same]
    · rw [if_neg same, Option.map_eq_some_iff] at first
      obtain ⟨later, found, rfl⟩ := first
      simp [replace, same, ih found]

/-- A value that is replaced at a position leaves every key where it was. -/
theorem position?_modify (entries : Entries α) (key : String) (position : Nat) (value : α) :
    position? (entries.modify position fun entry => (entry.1, value)) key =
      position? entries key := by
  induction entries generalizing position with
  | nil => simp
  | cons entry rest ih =>
    obtain ⟨held, old⟩ := entry
    cases position with
    | zero => simp [position?_cons]
    | succ position => simp [position?_cons, ih]

end Entries

/-- Where a column of the table of an entity is stored. -/
inductive Site where
  /-- At a position among the own columns. -/
  | own (position : Nat)
  /-- At a site of the entity at a position among those mixed in. -/
  | mixed (position : Nat) (inner : Site)
deriving DecidableEq, Repr

namespace Site

/-- The column at a site, with its name. -/
def column? : Site → Object → Option (String × Cell)
  | own position, object => object.columns[position]?
  | mixed position inner, object =>
    object.mixins[position]?.bind fun mixin => inner.column? mixin

/-- An entity with what the column at a site holds replaced. -/
def assign : Site → Object → Cell → Object
  | own position, .mk type columns mixins hidden, cell =>
    .mk type (columns.modify position fun column => (column.1, cell)) mixins hidden
  | mixed position inner, .mk type columns mixins hidden, cell =>
    .mk type columns (mixins.modify position fun mixin => inner.assign mixin cell) hidden

/-- An assignment at a site replaces what the column there holds, and leaves the columns at every
other site. -/
theorem column?_assign (site other : Site) (object : Object) (cell : Cell) :
    other.column? (site.assign object cell) =
      if site = other then (other.column? object).map fun column => (column.1, cell)
      else other.column? object := by
  induction site generalizing other object with
  | own position =>
    obtain ⟨type, columns, mixins, hidden⟩ := object
    cases other with
    | own other =>
      by_cases same : position = other <;> simp [assign, column?, Object.columns, same]
    | mixed other inner => simp [assign, column?, Object.mixins]
  | mixed position inner ih =>
    obtain ⟨type, columns, mixins, hidden⟩ := object
    cases other with
    | own other => simp [assign, column?, Object.columns]
    | mixed other further =>
      by_cases same : position = other
      · subst same
        cases there : mixins[position]? with
        | none => simp [assign, column?, Object.mixins, there]
        | some mixin => simp [assign, column?, Object.mixins, there, ih]
      · simp [assign, column?, Object.mixins, same]

end Site

namespace Object

mutual

/-- The site of the column of a name: that of the first own column of the name, or else the one in
the first entity mixed in that has any. -/
def site? (name : String) : Object → Option Site
  | mk _ columns mixins _ =>
    ((position? columns name).map .own).or
      ((mixedSite? name mixins).map fun found => .mixed found.1 found.2)

/-- The position of the first of mixed in entities with a column of a name, and the site of the
column in it. -/
def mixedSite? (name : String) : List Object → Option (Nat × Site)
  | [] => none
  | object :: rest =>
    ((object.site? name).map fun site => (0, site)).or
      ((mixedSite? name rest).map fun found => (found.1 + 1, found.2))

end

mutual

/-- The value of the first own column of a name, or else the one that is read in the first entity
mixed in that has any. -/
def firstValue? (name : String) : Object → Option Value
  | mk _ columns mixins _ =>
    ((find? columns name).map Cell.toValue).or (mixedFirstValue? name mixins)

/-- The value that is read under a name in the first of mixed in entities that has any. -/
def mixedFirstValue? (name : String) : List Object → Option Value
  | [] => none
  | object :: rest => (object.firstValue? name).or (mixedFirstValue? name rest)

end

mutual

/-- A name leads to the value of its column. -/
theorem firstValue?_eq_value? (name : String) :
    ∀ object : Object, object.firstValue? name = object.value? name
  | mk type columns mixins hidden => by
    rw [firstValue?, mixedFirstValue?_eq name mixins, value?, cell?, Option.map_or, Option.map_or]
    simp [Scope.reveal, find?]

/-- A name leads to the value of its column in mixed in entities. -/
theorem mixedFirstValue?_eq (name : String) :
    ∀ mixins : List Object,
      mixedFirstValue? name mixins = (mixedCell? .table name mixins).map Cell.toValue
  | [] => rfl
  | object :: rest => by
    rw [mixedFirstValue?, firstValue?_eq_value? name object, mixedFirstValue?_eq name rest,
      mixedCell?, Option.map_or, value?]

end

mutual

/-- A name leads to a site when it leads to a column. -/
theorem isSome_site? (name : String) :
    ∀ object : Object, (object.site? name).isSome = (object.cell? .table name).isSome
  | mk type columns mixins hidden => by
    simp [site?, cell?, isSome_position?, isSome_mixedSite? name mixins, Scope.reveal, find?]

/-- A name leads to a site in mixed in entities when it leads to a column in them. -/
theorem isSome_mixedSite? (name : String) :
    ∀ mixins : List Object,
      (mixedSite? name mixins).isSome = (mixedCell? .table name mixins).isSome
  | [] => rfl
  | object :: rest => by
    simp [mixedSite?, mixedCell?, isSome_site? name object, isSome_mixedSite? name rest]

end

/-- A name leads to an own column when it has a position among these. -/
theorem site?_eq_own_iff {object : Object} {name : String} {position : Nat} :
    object.site? name = some (.own position) ↔
      position? object.columns name = some position := by
  obtain ⟨type, columns, mixins, hidden⟩ := object
  simp [site?, Option.or_eq_some_iff, Object.columns]

/-- A name leads to a mixed in entity when no own column has it. -/
theorem site?_eq_mixed_iff {object : Object} {name : String} {position : Nat} {inner : Site} :
    object.site? name = some (.mixed position inner) ↔
      position? object.columns name = none ∧
        mixedSite? name object.mixins = some (position, inner) := by
  obtain ⟨type, columns, mixins, hidden⟩ := object
  simp [site?, Option.or_eq_some_iff, Object.columns, Object.mixins]

/-- A name leads to the first of mixed in entities where it leads anywhere. -/
theorem mixedSite?_eq_some_iff {mixins : List Object} {name : String} {position : Nat}
    {inner : Site} :
    mixedSite? name mixins = some (position, inner) ↔
      ∃ mixin, mixins[position]? = some mixin ∧ mixin.site? name = some inner ∧
        ∀ earlier ∈ mixins.take position, earlier.site? name = none := by
  induction mixins generalizing position with
  | nil => simp [mixedSite?]
  | cons object rest ih =>
    rw [mixedSite?, Option.or_eq_some_iff]
    cases position with
    | zero => simp
    | succ position =>
      have later : (mixedSite? name rest).map (fun found => (found.1 + 1, found.2)) =
          some (position + 1, inner) ↔ mixedSite? name rest = some (position, inner) := by
        simp
      rw [later, ih]
      simp only [Option.map_eq_none_iff, List.getElem?_cons_succ, List.take_succ_cons,
        List.forall_mem_cons]
      constructor
      · rintro (here | ⟨absent, mixin, there, found, earlier⟩)
        · simp at here
        · exact ⟨mixin, there, found, absent, earlier⟩
      · rintro ⟨mixin, there, found, absent, earlier⟩
        exact .inr ⟨absent, mixin, there, found, earlier⟩

/-- A name leads nowhere when it leads to no column. -/
theorem cell?_of_site?_eq_none {object : Object} {name : String}
    (nowhere : object.site? name = none) : object.cell? .table name = none := by
  simpa [nowhere] using (isSome_site? name object).symm

/-- The first of mixed in entities with a column of a name has the column of the name. -/
theorem mixedCell?_of_first {mixins : List Object} {name : String} {position : Nat} {mixin : Object}
    {cell : Cell} (there : mixins[position]? = some mixin)
    (held : mixin.cell? .table name = some cell)
    (absent : ∀ earlier ∈ mixins.take position, earlier.cell? .table name = none) :
    mixedCell? .table name mixins = some cell := by
  induction mixins generalizing position with
  | nil => simp at there
  | cons object rest ih =>
    cases position with
    | zero =>
      rw [List.getElem?_cons_zero, Option.some.injEq] at there
      rw [mixedCell?, there, held, Option.some_or]
    | succ position =>
      rw [List.take_succ_cons, List.forall_mem_cons] at absent
      rw [List.getElem?_cons_succ] at there
      rw [mixedCell?, absent.1, Option.none_or, ih there absent.2]

/-- The column of a name is replaced in the first of mixed in entities that has one. -/
theorem setMixedCell_of_first {mixins : List Object} {name : String} {position : Nat}
    {mixin : Object} {cell : Cell} (change : Object → Object)
    (there : mixins[position]? = some mixin) (held : (mixin.cell? .table name).isSome)
    (changes : mixin.setCell .table name cell = change mixin)
    (absent : ∀ earlier ∈ mixins.take position, earlier.cell? .table name = none) :
    setMixedCell .table name cell mixins = mixins.modify position change := by
  induction mixins generalizing position with
  | nil => simp at there
  | cons object rest ih =>
    cases position with
    | zero =>
      rw [List.getElem?_cons_zero, Option.some.injEq] at there
      subst there
      simp [setMixedCell, held, changes]
    | succ position =>
      rw [List.take_succ_cons, List.forall_mem_cons] at absent
      rw [List.getElem?_cons_succ] at there
      simp [setMixedCell, absent.1, ih there absent.2]

/-- The column of a name is an own one, or else one of a mixed in entity. -/
theorem cell?_table_eq (object : Object) (name : String) :
    object.cell? .table name =
      (find? object.columns name).or (mixedCell? .table name object.mixins) := by
  obtain ⟨type, columns, mixins, hidden⟩ := object
  simp [cell?, Object.columns, Object.mixins, Scope.reveal, find?]

/-- The column at the site that a name leads to is the column of the name. -/
theorem column?_of_site? {object : Object} {name : String} {site : Site}
    (found : object.site? name = some site) :
    ∃ cell, site.column? object = some (name, cell) ∧ object.cell? .table name = some cell := by
  induction site generalizing object with
  | own position =>
    obtain ⟨cell, there, held⟩ := getElem?_of_position? (site?_eq_own_iff.mp found)
    exact ⟨cell, there, by rw [cell?_table_eq, held, Option.some_or]⟩
  | mixed position inner ih =>
    obtain ⟨unowned, mixed⟩ := site?_eq_mixed_iff.mp found
    obtain ⟨mixin, there, reached, absent⟩ := mixedSite?_eq_some_iff.mp mixed
    obtain ⟨cell, inside, held⟩ := ih reached
    have first := mixedCell?_of_first there held fun earlier member =>
      cell?_of_site?_eq_none (absent earlier member)
    refine ⟨cell, by rw [Site.column?, there, Option.bind_some, inside], ?_⟩
    rw [cell?_table_eq, position?_eq_none_iff.mp unowned, Option.none_or, first]

/-- The names of mixed in entities are those of each of them. -/
theorem mixedNames_eq_flatMap (mixins : List Object) :
    mixedNames mixins = mixins.flatMap names := by
  induction mixins with
  | nil => rfl
  | cons mixin rest ih => rw [mixedNames, List.flatMap_cons, ih]

/-- The names of an entity are those of its own columns and of the entities mixed in. -/
theorem names_eq (object : Object) :
    object.names = keys object.columns ++ object.mixins.flatMap names := by
  obtain ⟨type, columns, mixins, hidden⟩ := object
  rw [names, mixedNames_eq_flatMap, Object.columns, Object.mixins]

/-- A column has one of the names of the entity. -/
theorem mem_names_of_column? {object : Object} {name : String} {site : Site} {cell : Cell}
    (there : site.column? object = some (name, cell)) : name ∈ object.names := by
  induction site generalizing object with
  | own position =>
    rw [names_eq]
    exact List.mem_append_left _ (mem_keys_of_getElem? there)
  | mixed position inner ih =>
    obtain ⟨mixin, found, inside⟩ := Option.bind_eq_some_iff.mp there
    rw [names_eq]
    exact List.mem_append_right _
      (List.mem_flatMap.mpr ⟨mixin, List.mem_of_getElem? found, ih inside⟩)

/-- Each name of an entity is that of a column at some site. -/
theorem exists_column?_of_mem_names {object : Object} {name : String}
    (known : name ∈ object.names) :
    ∃ (site : Site) (cell : Cell), site.column? object = some (name, cell) := by
  rw [mem_names_iff, ← isSome_site?, Option.isSome_iff_exists] at known
  obtain ⟨site, found⟩ := known
  obtain ⟨cell, there, -⟩ := column?_of_site? found
  exact ⟨site, cell, there⟩

/-- The column of a name is replaced at the site that the name leads to. -/
theorem setCell_of_site? {object : Object} {name : String} {site : Site}
    (found : object.site? name = some site) (cell : Cell) :
    object.setCell .table name cell = site.assign object cell := by
  induction site generalizing object with
  | own position =>
    obtain ⟨type, columns, mixins, hidden⟩ := object
    have first : position? columns name = some position := site?_eq_own_iff.mp found
    have own : contains columns name := by
      rw [contains, ← isSome_position?, first, Option.isSome_some]
    rw [setCell_mk, if_pos own, replace_of_position? first, Site.assign]
  | mixed position inner ih =>
    obtain ⟨type, columns, mixins, hidden⟩ := object
    obtain ⟨unowned, mixed⟩ : position? columns name = none ∧
        mixedSite? name mixins = some (position, inner) := site?_eq_mixed_iff.mp found
    obtain ⟨mixin, there, reached, absent⟩ := mixedSite?_eq_some_iff.mp mixed
    obtain ⟨held, -, column⟩ := column?_of_site? reached
    have earlier : ∀ other ∈ mixins.take position, other.cell? .table name = none :=
      fun other member => cell?_of_site?_eq_none (absent other member)
    have notOwn : ¬ contains columns name := by
      rw [contains, ← isSome_position?, unowned]
      simp
    have somewhere : (mixedCell? .table name mixins).isSome := by
      rw [mixedCell?_of_first there column earlier, Option.isSome_some]
    have replaced := setMixedCell_of_first (fun mixin => inner.assign mixin cell) there
      (by rw [column, Option.isSome_some]) (ih reached) earlier
    rw [setCell_mk, if_neg notOwn, if_pos somewhere, replaced, Site.assign]

/-- Names lead where they led before one of mixed in entities changes in no name. -/
theorem mixedSite?_modify {mixins : List Object} {name : String} {change : Object → Object}
    (position : Nat) (keeps : ∀ mixin, (change mixin).site? name = mixin.site? name) :
    mixedSite? name (mixins.modify position change) = mixedSite? name mixins := by
  induction mixins generalizing position with
  | nil => simp
  | cons object rest ih =>
    cases position with
    | zero => simp [mixedSite?, keeps]
    | succ position => simp [mixedSite?, ih]

/-- After an assignment every name leads where it led before. -/
theorem site?_assign (site : Site) (object : Object) (cell : Cell) (name : String) :
    (site.assign object cell).site? name = object.site? name := by
  induction site generalizing object with
  | own position =>
    obtain ⟨type, columns, mixins, hidden⟩ := object
    rw [Site.assign, site?, site?, position?_modify]
  | mixed position inner ih =>
    obtain ⟨type, columns, mixins, hidden⟩ := object
    rw [Site.assign, site?, site?, mixedSite?_modify position ih]

/-! ### The walks agree -/

/-- The three walks that a name leads through an entity agree. They know the same names, which are
those of the columns at its sites. Where the site and the value of a name are found, the value is
that of the column at the site, which is a column of the name. To assign to the name is to assign at
the site: what is assigned is the value of the name afterwards, while every other name keeps its
value and every other site its column. -/
theorem site?_agrees (object : Object) (name : String) :
    object.firstValue? name = object.value? name ∧
    ((object.site? name).isSome ↔ (object.value? name).isSome) ∧
    ((object.site? name).isSome ↔ name ∈ object.names) ∧
    (name ∈ object.names ↔ ∃ (site : Site) (cell : Cell), site.column? object = some (name, cell)) ∧
    ∀ site, object.site? name = some site →
      (∃ cell, site.column? object = some (name, cell) ∧
        object.value? name = some cell.toValue) ∧
      ∀ cell, object.setCell .table name cell = site.assign object cell ∧
        (site.assign object cell).site? name = some site ∧
        (site.assign object cell).value? name = some cell.toValue ∧
        (∀ other, other ≠ name →
          (site.assign object cell).value? other = object.value? other) ∧
        ∀ other, other ≠ site →
          other.column? (site.assign object cell) = other.column? object := by
  refine ⟨firstValue?_eq_value? name object, ?_, ?_, ⟨exists_column?_of_mem_names, ?_⟩,
    fun site found => ?_⟩
  · rw [value?, Option.isSome_map, isSome_site?]
  · rw [mem_names_iff, isSome_site?]
  · rintro ⟨site, cell, there⟩
    exact mem_names_of_column? there
  · obtain ⟨held, there, column⟩ := column?_of_site? found
    have known : (object.cell? .table name).isSome := by rw [column, Option.isSome_some]
    refine ⟨⟨held, there, by rw [value?, column, Option.map_some]⟩, fun cell => ?_⟩
    have assigned := setCell_of_site? found cell
    refine ⟨assigned, ?_, ?_, fun other different => ?_, fun other different => ?_⟩
    · rw [site?_assign, found]
    · rw [← assigned, value?, cell?_setCell_self .table name cell object known, Option.map_some]
    · rw [← assigned, value?, value?, cell?_setCell_of_ne .table cell different.symm]
    · rw [Site.column?_assign, if_neg different.symm]

/-- A badge, whose own number goes by the name of the identity that is mixed in. -/
def badge : Object :=
  .mk (.ofComponent "Badge" ["Id"] false) [("Id", .plain (.scalar .text "B-7"))]
    [.identity "holder"] []

/-- A new number of the badge is found under the shadowed name, and the identity keeps its own. -/
theorem site?_agrees_badge :
    badge.names = ["Id", "Id"] ∧ badge.site? "Id" = some (.own 0) ∧
      (badge.setCell .table "Id" (.plain (.scalar .text "B-8"))).value? "Id" = some (.text "B-8") ∧
      (Site.mixed 0 (.own 0)).column? (badge.setCell .table "Id" (.plain (.scalar .text "B-8"))) =
        some ("Id", .plain (.scalar .text "holder")) := by
  obtain ⟨-, -, -, -, resolved⟩ := site?_agrees badge "Id"
  obtain ⟨-, assigns⟩ := resolved (.own 0) (by decide)
  obtain ⟨assigned, -, read, -, kept⟩ := assigns (.plain (.scalar .text "B-8"))
  rw [assigned, read, kept (.mixed 0 (.own 0)) (by decide)]
  exact ⟨by decide, by decide, rfl, rfl⟩

end Object

end TypedRecord
