import TypedRecord.Declaration.Assembly
import TypedRecord.Proofs.Declarations
import TypedRecord.Proofs.Sites

/-!
# Shadowed columns

A declaration is accepted by its own property names, which are compared with each other and not with
the names of what is mixed in. An entity is assembled when it is of an accepted declaration and what
is mixed into it is assembled as well, and it is unshadowed when at every level no name of what is
mixed in is an own one or comes from two entities. Main statement: the own columns of an assembled
entity are always found under their names, and all its columns are, at every depth, exactly when no
name is there twice, which is exactly when the entity is unshadowed.
-/
namespace TypedRecord

open Entries

namespace Entries

variable {α : Type}

variable {entries : Entries α} {position : Nat} {key : String} {value : α}

/-- An entry has the position of its key when no key is there twice. -/
theorem position?_of_nodup (distinct : (keys entries).Nodup)
    (there : entries[position]? = some (key, value)) : position? entries key = some position := by
  have known := mem_keys_of_getElem? there
  rw [mem_keys_iff, ← isSome_position?, Option.isSome_iff_exists] at known
  obtain ⟨first, found⟩ := known
  obtain ⟨held, reached, -⟩ := getElem?_of_position? found
  have positions : (keys entries)[first]? = (keys entries)[position]? := by
    simp [keys, reached, there]
  have bound : first < (keys entries).length := by
    simpa [keys] using (List.getElem?_eq_some_iff.mp reached).1
  rw [found, (List.getElem?_inj bound distinct).mp positions]

end Entries

namespace Object

variable {object : Object} {name : String}

/-! ### Names and sites -/

/-- No name is there twice when none is among the own ones, in an entity that is mixed in, between
these two or in two entities that are mixed in. -/
theorem nodup_names_iff :
    object.names.Nodup ↔ (keys object.columns).Nodup ∧
      (∀ mixin ∈ object.mixins, mixin.names.Nodup) ∧
      (∀ mixin ∈ object.mixins, (keys object.columns).Disjoint mixin.names) ∧
      object.mixins.Pairwise fun first second => first.names.Disjoint second.names := by
  have apart : (keys object.columns).Disjoint (object.mixins.flatMap names) ↔
      ∀ mixin ∈ object.mixins, (keys object.columns).Disjoint mixin.names := by
    simp only [List.Disjoint, List.mem_flatMap]
    exact ⟨fun off mixin member name own known => off own ⟨mixin, member, known⟩,
      fun off name own ⟨mixin, member, known⟩ => off mixin member own known⟩
  rw [names_eq, List.nodup_append', List.nodup_flatMap, apart]
  tauto

/-- A name that is not among those of an entity leads nowhere. -/
theorem site?_eq_none_of_notMem (unknown : name ∉ object.names) : object.site? name = none := by
  rw [mem_names_iff, ← isSome_site?] at unknown
  simpa using unknown

/-- The value at the site that a name leads to is the value of the name. -/
theorem value?_of_site? {site : Site} {cell : Cell} (found : object.site? name = some site)
    (there : site.column? object = some (name, cell)) : object.value? name = some cell.toValue := by
  obtain ⟨held, column, reached⟩ := column?_of_site? found
  rw [there, Option.some.injEq, Prod.mk.injEq] at column
  rw [value?, reached, column.2, Option.map_some]

/-- An own column is found under its name when the own names are distinct. -/
theorem site?_eq_own_of_nodup {position : Nat} {cell : Cell}
    (distinct : (keys object.columns).Nodup)
    (there : (Site.own position).column? object = some (name, cell)) :
    object.site? name = some (.own position) :=
  site?_eq_own_iff.mpr (position?_of_nodup distinct there)

/-- A column is found under its name when no name is there twice. -/
theorem site?_eq_of_nodup {site : Site} {cell : Cell} (distinct : object.names.Nodup)
    (there : site.column? object = some (name, cell)) : object.site? name = some site := by
  induction site generalizing object with
  | own position => exact site?_eq_own_of_nodup (nodup_names_iff.mp distinct).1 there
  | mixed position inner ih =>
    obtain ⟨mixin, found, inside⟩ := Option.bind_eq_some_iff.mp there
    obtain ⟨-, within, apart, separate⟩ := nodup_names_iff.mp distinct
    have member := List.mem_of_getElem? found
    have known : name ∈ mixin.names := mem_names_of_column? inside
    have unowned : name ∉ keys object.columns := fun own => apart mixin member own known
    rw [mem_keys_iff, Option.not_isSome_iff_eq_none] at unowned
    refine site?_eq_mixed_iff.mpr ⟨position?_eq_none_iff.mpr unowned, mixedSite?_eq_some_iff.mpr
      ⟨mixin, found, ih (within mixin member) inside, fun earlier before => ?_⟩⟩
    -- No entity before this one has the name, because no two of them share one.
    obtain ⟨index, below, rfl⟩ := List.mem_take_iff_getElem.mp before
    obtain ⟨bound, rfl⟩ := List.getElem?_eq_some_iff.mp found
    have disjoint :=
      List.pairwise_iff_getElem.mp separate index position (by omega) bound (by omega)
    exact site?_eq_none_of_notMem fun shared => disjoint shared known

/-! ### Every column under its name -/

/-- An entity exposes its columns when every one, at every depth, is found under its name with its
value. -/
def Exposes (object : Object) : Prop :=
  ∀ site name cell, site.column? object = some (name, cell) →
    object.site? name = some site ∧ object.value? name = some cell.toValue

/-- The columns of an entity are exposed when no name is there twice. -/
theorem exposes_of_nodup (distinct : object.names.Nodup) : object.Exposes := by
  intro site name cell there
  have found := site?_eq_of_nodup distinct there
  exact ⟨found, value?_of_site? found there⟩

/-- Columns of one name are the same column where columns are exposed. -/
theorem Exposes.site_unique (exposes : object.Exposes) {site other : Site} {cell held : Cell}
    (first : site.column? object = some (name, cell))
    (second : other.column? object = some (name, held)) : site = other := by
  have found := (exposes site name cell first).1
  rwa [(exposes other name held second).1, Option.some.injEq, eq_comm] at found

/-- A column of an entity that is mixed in is one of the entity it is mixed into. -/
theorem exists_mixed_column? {mixin : Object} {position : Nat}
    (found : object.mixins[position]? = some mixin) (known : name ∈ mixin.names) :
    ∃ inner cell, (Site.mixed position inner).column? object = some (name, cell) := by
  obtain ⟨inner, cell, inside⟩ := exists_column?_of_mem_names known
  exact ⟨inner, cell, by rw [Site.column?, found, Option.bind_some, inside]⟩

/-- Where columns are exposed they are in the entities that are mixed in. -/
theorem Exposes.of_mem_mixins (exposes : object.Exposes) {mixin : Object}
    (member : mixin ∈ object.mixins) : mixin.Exposes := by
  obtain ⟨position, found⟩ := List.mem_iff_getElem?.mp member
  intro site name cell inside
  have there : (Site.mixed position site).column? object = some (name, cell) := by
    rw [Site.column?, found, Option.bind_some, inside]
  obtain ⟨-, mixed⟩ := site?_eq_mixed_iff.mp (exposes _ name cell there).1
  obtain ⟨other, same, within, -⟩ := mixedSite?_eq_some_iff.mp mixed
  rw [found, Option.some.injEq] at same
  subst same
  exact ⟨within, value?_of_site? within inside⟩

/-! ### Accepted declarations -/

/-- An entity is assembled when its columns and the entities mixed in are those of the fields of an
accepted declaration, and what is mixed in is assembled. -/
inductive Assembled : Object → Prop where
  /-- An entity of a declaration whose fields hold what they are declared for. -/
  | intro (declaration : TypeDeclaration) (type : EntityType) (contents : List FieldContent)
      {object : Object} (made : declaration.assemble type contents = .ok object)
      (complete : contents.length = declaration.fields.length)
      (fits : ∀ pair ∈ declaration.fields.zip contents, pair.2.fits pair.1)
      (inside : ∀ mixin ∈ object.mixins, Assembled mixin) : Assembled object

/-- An entity is unshadowed when no own name is one of an entity that is mixed in, no two of these
share a name, and each of them is unshadowed. -/
inductive Unshadowed : Object → Prop where
  /-- An entity whose names are apart at its own level and inside what is mixed in. -/
  | intro {object : Object}
      (apart : ∀ mixin ∈ object.mixins, (keys object.columns).Disjoint mixin.names)
      (separate : object.mixins.Pairwise fun first second => first.names.Disjoint second.names)
      (inside : ∀ mixin ∈ object.mixins, Unshadowed mixin) : Unshadowed object

/-- The own names of an assembled entity are distinct. -/
theorem Assembled.nodup_keys (assembled : object.Assembled) : (keys object.columns).Nodup := by
  cases assembled with
  | intro declaration type contents made complete fits inside =>
    cases accepted : declaration.table with
    | error error => simp [TypeDeclaration.assemble, accepted, Except.map] at made
    | ok table =>
      simp only [TypeDeclaration.assemble, accepted, Except.map, Except.ok.injEq] at made
      subst made
      have fields : (declaration.fields.zip contents).map Prod.fst = declaration.fields :=
        List.map_fst_zip complete.ge
      have read := TypeDeclaration.ofFields_of_table accepted
      obtain ⟨⟨-, distinct⟩, own⟩ := FieldTable.ofFields_eq_ok_iff.mp read
      rw [← fields] at read
      rw [Object.columns, FieldLayout.keys_columns_ofFields read fits, own]
      exact distinct

/-- No name of an assembled entity is there twice exactly when it is unshadowed. -/
theorem Assembled.nodup_names_iff (assembled : object.Assembled) :
    object.names.Nodup ↔ object.Unshadowed := by
  induction assembled with
  | intro declaration type contents made complete fits inside ih =>
    have own := (Assembled.intro declaration type contents made complete fits inside).nodup_keys
    rw [Object.nodup_names_iff]
    constructor
    · rintro ⟨-, within, apart, separate⟩
      exact .intro apart separate fun mixin member => (ih mixin member).mp (within mixin member)
    · rintro ⟨apart, separate, within⟩
      exact ⟨own, fun mixin member => (ih mixin member).mpr (within mixin member), apart, separate⟩

/-- An assembled entity whose columns are exposed is unshadowed. -/
theorem Assembled.unshadowed_of_exposes (assembled : object.Assembled) (exposes : object.Exposes) :
    object.Unshadowed := by
  induction assembled with
  | @intro declaration type contents object made complete fits inside ih =>
    -- A name in two places would be that of two columns, which are at different sites.
    refine .intro (fun mixin member name own known => ?_) ?_ fun mixin member =>
      ih mixin member (exposes.of_mem_mixins member)
    · obtain ⟨position, found⟩ := List.mem_iff_getElem?.mp member
      obtain ⟨⟨key, held⟩, column, rfl⟩ := List.mem_map.mp own
      obtain ⟨index, there⟩ := List.mem_iff_getElem?.mp column
      obtain ⟨inner, cell, mixed⟩ := exists_mixed_column? found known
      have direct : (Site.own index).column? object = some (key, held) := there
      cases exposes.site_unique direct mixed
    · refine List.pairwise_iff_getElem.mpr fun first second low high before name left right => ?_
      obtain ⟨inner, cell, mixed⟩ := exists_mixed_column? (List.getElem?_eq_getElem low) left
      obtain ⟨other, held, later⟩ := exists_mixed_column? (List.getElem?_eq_getElem high) right
      have shared := exposes.site_unique mixed later
      rw [Site.mixed.injEq] at shared
      omega

/-- The own columns of an assembled entity are found under their names. No name of the entity is
there twice exactly when it is unshadowed, and exactly when every column at every depth is found
under its name with its value. -/
theorem nodup_names_iff_of_assembled (assembled : object.Assembled) :
    (∀ position name cell, (Site.own position).column? object = some (name, cell) →
      object.site? name = some (.own position) ∧ object.value? name = some cell.toValue) ∧
    (object.names.Nodup ↔ object.Unshadowed) ∧ (object.names.Nodup ↔ object.Exposes) := by
  refine ⟨fun position name cell there => ?_, assembled.nodup_names_iff, exposes_of_nodup,
    fun exposes => assembled.nodup_names_iff.mpr (assembled.unshadowed_of_exposes exposes)⟩
  have found := site?_eq_own_of_nodup assembled.nodup_keys there
  exact ⟨found, value?_of_site? found there⟩

/-- No name is in two of the components. -/
example : (mixedNames [identity "", tenant, tracking, deletion]).Nodup := by decide

/-- A declaration with some fields of a type that travels. -/
def declarationOf (ident : String) (fields : List FieldDeclaration) : TypeDeclaration :=
  ⟨ident, some ident, true, false, false, .named, fields⟩

/-- Identities are assembled. -/
theorem assembled_identity (ident : String) : (identity ident).Assembled :=
  .intro (declarationOf "IdentityInfo" [⟨"id", none, false, false⟩]) .identity
    [.column (.plain (.scalar .text ident))] rfl rfl (by simp [declarationOf, FieldContent.fits])
    (by simp [identity, Object.mixins])

/-- Tenants are assembled. -/
theorem assembled_tenant : tenant.Assembled :=
  .intro (declarationOf "TenantInfo"
      [⟨"tenant_id", none, false, false⟩, ⟨"tenant_name", none, false, false⟩]) .tenant
    [.column (.plain (.ofKind .text)), .column (.plain (.ofKind .text))] rfl rfl
    (by simp [declarationOf, FieldContent.fits]) (by simp [tenant, Object.mixins])

/-- A membership: the identity of who belongs to a tenant, and the tenant. -/
def membership : Object :=
  .mk (.ofComponent "Membership" ["Id", "TenantId", "TenantName", "Role"] false)
    [("Role", .plain (.scalar .text "owner"))] [.identity "holder", .tenant]
    [("Cache", .plain (.ofKind .text))]

/-- Every column of a membership is found under its name. -/
theorem nodup_names_iff_of_assembled_membership :
    membership.Assembled ∧ membership.Unshadowed ∧ membership.names.Nodup ∧
      membership.site? "TenantName" = some (.mixed 1 (.own 1)) := by
  have assembled : membership.Assembled :=
    .intro (declarationOf "Membership" [⟨"identity", none, true, false⟩,
        ⟨"role", none, false, false⟩, ⟨"tenant", none, true, false⟩, ⟨"cache", none, false, true⟩])
      _ [.mixin (.identity "holder"), .column (.plain (.scalar .text "owner")), .mixin .tenant,
        .column (.plain (.ofKind .text))] rfl rfl (by simp [declarationOf, FieldContent.fits])
      (by simp [membership, Object.mixins, assembled_identity, assembled_tenant])
  obtain ⟨-, unshadowed, exposed⟩ := nodup_names_iff_of_assembled assembled
  have distinct : membership.names.Nodup := by decide
  exact ⟨assembled, unshadowed.mp distinct, distinct,
    (exposed.mp distinct (.mixed 1 (.own 1)) "TenantName" (.plain (.ofKind .text)) rfl).1⟩

/-- A badge is assembled, its own number and its identity have one name, and the identity is not
found under it. -/
theorem badge_shadows_identity :
    badge.Assembled ∧ badge.names = ["Id", "Id"] ∧ badge.site? "Id" = some (.own 0) ∧
      (Site.mixed 0 (.own 0)).column? badge = some ("Id", .plain (.scalar .text "holder")) :=
  ⟨.intro (declarationOf "Badge" [⟨"id", none, false, false⟩, ⟨"identity", none, true, false⟩]) _
      [.column (.plain (.scalar .text "B-7")), .mixin (.identity "holder")] rfl rfl
      (by simp [declarationOf, FieldContent.fits])
      (by simp [badge, Object.mixins, assembled_identity]),
    by decide, by decide, rfl⟩

end Object

end TypedRecord
