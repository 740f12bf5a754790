import TypedRecord.Proofs.Documents
import TypedRecord.Proofs.Order

/-!
# What a document of renaming rules declares

A document declares a rename at a path when the keys on the way, each cut at its dots, make up the
path. What is read from it is told path by path: every name that is found was declared for its path,
and where names were declared for a path one of them is found unless the document loses the path. It
does when a map after the last declaration for the path describes anew one of the keys on the way
and does not get to the path itself: the rules for the keys in a map replace those that were there,
with all that is nested in them. A rename written as a text is never lost, however its key is
dotted.
-/
namespace TypedRecord

open Entries TypedRecord.Path

/-- A value declares a new name at a path that starts where the value stands. -/
inductive Value.Declares : Value → List String → String → Prop
  /-- A text is the name of the value that it stands for. -/
  | rename (target : String) : Declares (.text target) [] target
  /-- A map holds the name of the container. -/
  | container {inside : Mapping} {name : String}
      (named : find? inside Rules.containerKey = some (.text name)) : Declares (.map inside) [] name
  /-- A map declares further down what its other entries declare. -/
  | inside {inside : Mapping} {entry : String × Value} {path : List String} {target : String}
      (member : entry ∈ inside.contents) (within : Declares entry.2 path target) :
      Declares (.map inside) (parts entry.1 ++ path) target

/-- A document declares a new name at a path: one of its entries does below its own key. -/
def Mapping.Declares (document : Mapping) (path : List String) (target : String) : Prop :=
  ∃ entry ∈ document, ∃ below, path = parts entry.1 ++ below ∧ entry.2.Declares below target

mutual

/-- The names that a value declares, each with its path from where the value stands. -/
def Value.declared : Value → List (List String × String)
  | .text target => [([], target)]
  | .map inside =>
    (Mapping.text? inside Rules.containerKey).toList.map (([], ·)) ++ declaredInside inside
  | _ => []

/-- The names that the contents of a map declare, each with its path. -/
def Value.declaredInside : List (String × Value) → List (List String × String)
  | [] => []
  | (key, value) :: rest =>
    if key = Rules.containerKey then declaredInside rest
    else value.declared.map (Prod.map (parts key ++ ·) id) ++ declaredInside rest

end

/-- The names that a document declares, each with its path. -/
def Mapping.declared (document : Mapping) : List (List String × String) :=
  document.flatMap fun entry => entry.2.declared.map (Prod.map (parts entry.1 ++ ·) id)

/-- A document describes the first key of a path: it is the first segment of one of its own. -/
def Mapping.Describes (document : Mapping) (path : List String) : Prop :=
  ∃ entry ∈ document, ∃ rest, path = (segments entry.1).1 :: rest

/-- A value loses a path that starts where the value stands. -/
inductive Value.Loses : Value → List String → Prop
  /-- A map describes a key on the way and declares nothing at the path. -/
  | silent {inside : Mapping} {path : List String} (described : inside.contents.Describes path)
      (undeclared : ∀ target, ¬ inside.contents.Declares path target) : Loses (.map inside) path
  /-- A map declares something at the path, but an entry after that loses it. -/
  | inside {inside before after : Mapping} {entry : String × Value} {path : List String}
      (place : inside.contents = before ++ entry :: after) (within : Loses entry.2 path)
      (last : ∀ target, ¬ after.Declares (parts entry.1 ++ path) target) :
      Loses (.map inside) (parts entry.1 ++ path)

/-- A document loses a path: one of its entries does, and none after that declares a name there. -/
def Mapping.Loses (document : Mapping) (path : List String) : Prop :=
  ∃ before entry after, document = before ++ entry :: after ∧
    (∃ below, path = parts entry.1 ++ below ∧ entry.2.Loses below) ∧
      ∀ target, ¬ Mapping.Declares after path target

/-- A value does not lose the path to itself. -/
theorem Value.Loses.ne_nil {value : Value} {path : List String} (loses : value.Loses path) :
    path ≠ [] := by
  rintro rfl
  cases loses with
  | silent described _ =>
    obtain ⟨_, _, _, same⟩ := described
    cases same

/-- A map declares the name of its container and, further down, what its contents declare. -/
theorem Value.declares_map_iff {inside : Mapping} {path : List String} {target : String} :
    (Value.map inside).Declares path target ↔
      (path = [] ∧ find? inside Rules.containerKey = some (.text target)) ∨
        inside.contents.Declares path target := by
  constructor
  · intro declares
    cases declares with
    | container named => exact .inl ⟨rfl, named⟩
    | inside member within => exact .inr ⟨_, member, _, rfl, within⟩
  · rintro (⟨rfl, named⟩ | ⟨entry, member, below, rfl, within⟩)
    · exact .container named
    · exact .inside member within

/-- The text under a key is the one that stands there. -/
theorem Mapping.text?_eq_some_iff {mapping : Mapping} {key name : String} :
    mapping.text? key = some name ↔ find? mapping key = some (.text name) := by
  rw [Mapping.text?]
  cases find? mapping key with
  | none => simp
  | some value => cases value <;> simp [Value.asText?]

/-- The contents of a map declare what they declare as a document. -/
theorem Value.declaredInside_eq (inside : Mapping) :
    Value.declaredInside inside = inside.contents.declared := by
  induction inside with
  | nil => rfl
  | cons entry rest ih =>
    obtain ⟨key, value⟩ := entry
    by_cases container : key = Rules.containerKey <;>
      simp [Value.declaredInside, Mapping.declared, erase, container, ih]

/-- A document declares the names that its values do, below their keys. -/
theorem Mapping.mem_declared_iff_of {document : Mapping} {path : List String} {target : String}
    (each : ∀ entry ∈ document, ∀ below target,
      (below, target) ∈ entry.2.declared ↔ entry.2.Declares below target) :
    (path, target) ∈ document.declared ↔ document.Declares path target := by
  simp only [declared, Declares, List.mem_flatMap, List.mem_map, Prod.exists, Prod.map_apply, id_eq,
    Prod.mk.injEq]
  constructor
  · rintro ⟨key, value, member, below, name, within, rfl, rfl⟩
    exact ⟨key, value, member, below, rfl, (each _ member below name).mp within⟩
  · rintro ⟨key, value, member, below, rfl, within⟩
    exact ⟨key, value, member, below, target, (each _ member below target).mpr within, rfl, rfl⟩

/-- The declared names of a value are those that it declares. -/
theorem Value.mem_declared_iff {value : Value} {path : List String} {target : String} :
    (path, target) ∈ value.declared ↔ value.Declares path target := by
  induction value using Value.induction generalizing path target with
  | text name =>
    rw [declared, List.mem_singleton, Prod.mk.injEq]
    constructor
    · rintro ⟨rfl, rfl⟩
      exact .rename target
    · rintro ⟨⟩
      exact ⟨rfl, rfl⟩
  | map inside ih =>
    have contents : (path, target) ∈ inside.contents.declared ↔
        inside.contents.Declares path target := Mapping.mem_declared_iff_of
      fun entry member _ _ => ih entry (Mapping.mem_of_mem_contents member)
    rw [declared, declaredInside_eq, List.mem_append, contents, declares_map_iff,
      ← Mapping.text?_eq_some_iff]
    simp [eq_comm, and_comm]
  | _ => exact ⟨nofun, nofun⟩

/-- The declared names of a document are those that it declares. -/
theorem Mapping.mem_declared_iff {document : Mapping} {path : List String} {target : String} :
    (path, target) ∈ document.declared ↔ document.Declares path target :=
  mem_declared_iff_of fun _ _ _ _ => Value.mem_declared_iff

namespace Mapping

variable {document inside rest : Mapping} {entry : String × Value} {key : String}
  {path : List String} {target : String}

/-- The entries of a document declare names one by one. -/
theorem declares_cons_iff : Declares (entry :: rest) path target ↔
    Declares [entry] path target ∨ rest.Declares path target := by
  simp [Declares]

/-- A document loses a path to its first entry only when no other one declares a name there. -/
theorem loses_cons_iff : Loses (entry :: rest) path ↔
    rest.Loses path ∨ (Loses [entry] path ∧ ∀ target, ¬ rest.Declares path target) := by
  constructor
  · rintro ⟨before, lost, after, place, loses, last⟩
    rcases List.cons_eq_append_iff.mp place with ⟨rfl, same⟩ | ⟨between, rfl, rfl⟩
    · cases same
      exact .inr ⟨⟨[], entry, [], rfl, loses, by simp [Declares]⟩, last⟩
    · exact .inl ⟨between, lost, after, rfl, loses, last⟩
  · rintro (⟨before, lost, after, rfl, loses, last⟩ |
      ⟨⟨before, lost, after, place, loses, -⟩, last⟩)
    · exact ⟨entry :: before, lost, after, rfl, loses, last⟩
    · rcases List.cons_eq_append_iff.mp place with ⟨rfl, same⟩ | ⟨between, -, none⟩
      · cases same
        exact ⟨[], entry, rest, rfl, loses, last⟩
      · simp at none

/-- A path where a document declares a name starts with the first segment of one of its keys. -/
theorem Declares.describes (declares : document.Declares path target) :
    document.Describes path := by
  obtain ⟨entry, member, below, rfl, -⟩ := declares
  exact ⟨entry, member, _, rfl⟩

/-- A path that a document loses starts with the first segment of one of its keys. -/
theorem Loses.describes (loses : document.Loses path) : document.Describes path := by
  obtain ⟨before, entry, after, rfl, ⟨below, rfl, -⟩, -⟩ := loses
  exact ⟨entry, List.mem_append_right _ List.mem_cons_self, _, rfl⟩

/-- Nothing is declared or lost along a path whose first key is not described. -/
theorem not_declares_of_not_describes (undescribed : ¬ document.Describes path) :
    (∀ target, ¬ document.Declares path target) ∧ ¬ document.Loses path :=
  ⟨fun _ declares => undescribed declares.describes, fun loses => undescribed loses.describes⟩

/-- A document describes keys, so a path that it describes is not empty. -/
theorem not_describes_nil : ¬ document.Describes [] := fun ⟨_, _, _, same⟩ => nomatch same

/-- A text declares its name at the parts of its key. -/
theorem declares_text_iff {name : String} :
    Declares [(key, .text name)] path target ↔ path = parts key ∧ target = name := by
  constructor
  · rintro ⟨entry, member, below, rfl, declares⟩
    cases List.mem_singleton.mp member
    cases declares
    exact ⟨List.append_nil _, rfl⟩
  · rintro ⟨rfl, rfl⟩
    exact ⟨_, List.mem_cons_self, [], (List.append_nil _).symm, .rename _⟩

/-- A text loses nothing. -/
theorem not_loses_text {name : String} : ¬ Loses [(key, .text name)] path := by
  rintro ⟨before, entry, after, place, ⟨below, -, loses⟩, -⟩
  have member : entry ∈ [(key, Value.text name)] :=
    place ▸ List.mem_append_right _ List.mem_cons_self
  cases List.mem_singleton.mp member
  cases loses

/-- A map declares names at the path of its key and further down. -/
theorem Declares.prefix_of_map (declares : Declares [(key, .map inside)] path target) :
    parts key <+: path := by
  obtain ⟨entry, member, below, rfl, -⟩ := declares
  cases List.mem_singleton.mp member
  exact List.prefix_append _ _

/-- A map loses paths that lead to its key and further down. -/
theorem Loses.prefix_of_map (loses : Loses [(key, .map inside)] path) : parts key <+: path := by
  obtain ⟨before, entry, after, place, ⟨below, rfl, -⟩, -⟩ := loses
  have member : entry ∈ [(key, Value.map inside)] :=
    place ▸ List.mem_append_right _ List.mem_cons_self
  cases List.mem_singleton.mp member
  exact List.prefix_append _ _

/-- Below its key a map declares what it does as a value. -/
theorem declares_map_append_iff : Declares [(key, .map inside)] (parts key ++ path) target ↔
    (path = [] ∧ find? inside Rules.containerKey = some (.text target)) ∨
      inside.contents.Declares path target := by
  rw [← Value.declares_map_iff]
  simp [Declares]

/-- A map loses, further down, what its other entries lose and what they describe and leave out. -/
theorem loses_map_append_iff : Loses [(key, .map inside)] (parts key ++ path) ↔
    inside.contents.Loses path ∨
      (inside.contents.Describes path ∧ ∀ target, ¬ inside.contents.Declares path target) := by
  constructor
  · rintro ⟨before, entry, after, place, ⟨below, same, loses⟩, -⟩
    have member : entry ∈ [(key, Value.map inside)] :=
      place ▸ List.mem_append_right _ List.mem_cons_self
    cases List.mem_singleton.mp member
    cases List.append_cancel_left same
    cases loses with
    | silent described undeclared => exact .inr ⟨described, undeclared⟩
    | inside place within last => exact .inl ⟨_, _, _, place, ⟨_, rfl, within⟩, last⟩
  · have single : (Value.map inside).Loses path → Loses [(key, .map inside)] (parts key ++ path) :=
      fun loses => ⟨[], _, [], rfl, ⟨path, rfl, loses⟩, by simp [Declares]⟩
    rintro (⟨before, entry, after, place, ⟨deeper, rfl, within⟩, last⟩ | ⟨described, undeclared⟩)
    · exact single (.inside place within last)
    · exact single (.silent described undeclared)

end Mapping

namespace Rules

/-! ### What is found -/

/-- The name at a path after a document is read into rules: it was declared or was there before, and
there is one where one was declared or was there, unless the document loses the path. -/
structure GainsAt (rules : Rules) (document : Mapping) (out : Rules) (path : List String) :
    Prop where
  /-- What is found was declared or was there. -/
  found : ∀ target, out.renameAt? path = some target →
    document.Declares path target ∨ rules.renameAt? path = some target
  /-- Something is found where something was declared or was there, unless the path is lost. -/
  kept : (out.renameAt? path).isSome ↔
    ((∃ target, document.Declares path target) ∨ (rules.renameAt? path).isSome) ∧
      ¬ document.Loses path

/-- The rules after a document is read into others, along every path. -/
def Gains (rules : Rules) (document : Mapping) (out : Rules) : Prop :=
  ∀ path, rules.GainsAt document out path

/-- A path that a document does not speak of keeps its name. -/
theorem GainsAt.of_untouched {rules out : Rules} {document : Mapping} {path : List String}
    (undeclared : ∀ target, ¬ document.Declares path target) (unlost : ¬ document.Loses path)
    (same : out.renameAt? path = rules.renameAt? path) : rules.GainsAt document out path :=
  ⟨fun _ found => .inr (same ▸ found), by simp [undeclared, unlost, same]⟩

/-- The empty document leaves rules as they are. -/
theorem Gains.nil (rules : Rules) : rules.Gains [] rules := fun _ =>
  .of_untouched (by simp [Mapping.Declares]) (by simp [Mapping.Loses]) rfl

/-- A document is read entry by entry. -/
theorem Gains.cons {rules middle out : Rules} {entry : String × Value} {rest : Mapping}
    (first : rules.Gains [entry] middle) (later : middle.Gains rest out) :
    rules.Gains (entry :: rest) out := by
  intro path
  constructor
  · intro target present
    rw [Mapping.declares_cons_iff, or_assoc, or_left_comm]
    exact ((later path).found target present).imp_right ((first path).found target)
  · have declared : (∃ target, Mapping.Declares (entry :: rest) path target) ↔
        (∃ target, Mapping.Declares [entry] path target) ∨ ∃ target, rest.Declares path target := by
      rw [← exists_or]
      exact exists_congr fun _ => Mapping.declares_cons_iff
    have lost : Mapping.Loses (entry :: rest) path ↔ rest.Loses path ∨
        (Mapping.Loses [entry] path ∧ ¬ ∃ target, rest.Declares path target) := by
      rw [not_exists]
      exact Mapping.loses_cons_iff
    rw [(later path).kept, (first path).kept, lost, declared]
    -- A path that is declared later is not lost to the first entry.
    by_cases declaredLater : ∃ target, rest.Declares path target
    · simp [declaredLater]
    · simp only [declaredLater, false_or, or_false, not_false_eq_true, and_true, not_or]
      rw [and_assoc, and_comm (a := ¬ Mapping.Loses [entry] path)]

/-- A text is found at the path of its key. -/
theorem gains_rename (rules : Rules) (key target : String) :
    rules.Gains [(key, .text target)] (rules.rename key target) := by
  intro path
  constructor
  · intro name present
    rw [renameAt?_rename] at present
    split at present
    · next same =>
      cases present
      exact .inl (Mapping.declares_text_iff.mpr ⟨same, rfl⟩)
    · exact .inr present
  · rw [renameAt?_rename]
    by_cases same : path = parts key <;>
      simp [same, Mapping.declares_text_iff, Mapping.not_loses_text]

section Merging

variable {inside : Mapping} {inner : Rules} {name : Option String} (rules : Rules) (key : String)

/-- The name of a map is found at the path of its key. -/
theorem gainsAt_merge_self (named : find? inside containerKey = name.map .text) :
    rules.GainsAt [(key, .map inside)] (rules.merge key name inner) (parts key) := by
  have declares : ∀ target, Mapping.Declares [(key, .map inside)] (parts key) target ↔
      name = some target := by
    intro target
    have below := @Mapping.declares_map_append_iff inside key [] target
    have undeclared : ¬ inside.contents.Declares [] target :=
      (Mapping.not_declares_of_not_describes Mapping.not_describes_nil).1 target
    rw [List.append_nil, or_iff_left undeclared, and_iff_right rfl, named] at below
    rw [below]
    cases name <;> simp
  have unlost : ¬ Mapping.Loses [(key, .map inside)] (parts key) := by
    have below := @Mapping.loses_map_append_iff inside key []
    have undescribed := @Mapping.not_describes_nil inside.contents
    obtain ⟨-, unlost⟩ := Mapping.not_declares_of_not_describes undescribed
    rw [List.append_nil] at below
    rw [below]
    simp [undescribed, unlost]
  constructor
  · intro target present
    rw [renameAt?_merge_self, Option.or_eq_some_iff] at present
    exact present.imp (declares target).mpr And.right
  · rw [renameAt?_merge_self, Option.isSome_or]
    simp [declares, unlost, Option.isSome_iff_exists]

/-- Below a key that a map describes there is what the map declares, in place of all that was
there. -/
theorem gainsAt_merge_within (gains : Gains [] inside.contents inner)
    (distinct : (keys inner).Nodup) {first : String} {rest : List String}
    (held : contains inner first) (described : inside.contents.Describes (first :: rest)) :
    rules.GainsAt [(key, .map inside)] (rules.merge key name inner)
      (parts key ++ first :: rest) := by
  have found : (rules.merge key name inner).renameAt? (parts key ++ first :: rest) =
      inner.renameAt? (first :: rest) := by
    rw [renameAt?_merge_append distinct, if_pos held]
  have within := gains (first :: rest)
  constructor
  · intro target present
    rw [found] at present
    have declares := (within.found target present).resolve_right (by simp [renameAt?_nil])
    exact .inl (Mapping.declares_map_append_iff.mpr (.inr declares))
  · rw [found, within.kept, renameAt?_nil, Mapping.loses_map_append_iff, ← not_exists]
    simp only [Mapping.declares_map_append_iff, reduceCtorEq, false_and, false_or,
      Option.isSome_none, Bool.false_eq_true, or_false]
    tauto

/-- What a map declares is found below its key, in place of all that was there for the keys it
describes. -/
theorem gains_merge (named : find? inside containerKey = name.map .text)
    (read : ofDocument inside.contents = .ok inner) (gains : Gains [] inside.contents inner) :
    rules.Gains [(key, .map inside)] (rules.merge key name inner) := by
  have distinct : (keys inner).Nodup := (ordered_ofDocument read).1.nodup_keys
  have described : ∀ first rest,
      contains inner first ↔ inside.contents.Describes (first :: rest) := by
    intro first rest
    rw [contains, isSome_find?_declareAll read first]
    simp [find?, Mapping.Describes, eq_comm]
  intro path
  by_cases below : parts key <+: path
  · obtain ⟨rest, rfl⟩ := below
    cases rest with
    | nil => simpa using gainsAt_merge_self rules key named
    | cons first rest =>
      by_cases held : contains inner first
      · exact gainsAt_merge_within rules key gains distinct held ((described first rest).mp held)
      · have undescribed : ¬ inside.contents.Describes (first :: rest) :=
          fun describes => held ((described first rest).mpr describes)
        obtain ⟨undeclared, unlost⟩ := Mapping.not_declares_of_not_describes undescribed
        refine .of_untouched ?_ ?_ (by rw [renameAt?_merge_append distinct, if_neg held])
        · simp [Mapping.declares_map_append_iff, undeclared]
        · simp [Mapping.loses_map_append_iff, undescribed, unlost]
  · exact .of_untouched (fun target declares => below declares.prefix_of_map)
      (fun loses => below loses.prefix_of_map) (renameAt?_merge_of_aside _ _ below)

end Merging

/-- What a document says of each entry is gained from the document when it is from each entry. -/
theorem gains_declareAll_of {document : Mapping}
    (each : ∀ entry ∈ document, ∀ {rules out : Rules}, declare rules entry.1 entry.2 = .ok out →
      rules.Gains [entry] out) {rules out : Rules} (read : declareAll rules document = .ok out) :
    rules.Gains document out := by
  induction document generalizing rules with
  | nil =>
    cases read
    exact .nil _
  | cons entry rest ih =>
    obtain ⟨here, further⟩ := List.forall_mem_cons.mp each
    obtain ⟨middle, first, later⟩ := declareAll_cons_eq_ok.mp read
    exact (here first).cons (ih further later)

/-- An entry that is read gains what it declares. -/
theorem gains_declare {value : Value} : ∀ {rules out : Rules} {key : String},
    declare rules key value = .ok out → rules.Gains [(key, value)] out := by
  induction value using Value.induction with
  | text target =>
    intro rules out key read
    cases read
    exact gains_rename rules key target
  | map inside ih =>
    intro rules out key read
    obtain ⟨name, inner, named, within, rfl⟩ := declare_map_eq_ok.mp read
    have gains : Gains [] inside.contents inner := gains_declareAll_of
      (fun entry member => ih entry (Mapping.mem_of_mem_contents member)) within
    exact gains_merge rules key named within gains
  | _ => exact fun read => nomatch read

/-- The path of a text is not lost: whatever loses it stands at a path above, so its key comes first
and the text is read later. -/
theorem not_loses_of_text {document : Mapping} (sorted : Sorted document) {key target : String}
    (member : (key, Value.text target) ∈ document) : ¬ document.Loses (parts key) := by
  rintro ⟨before, entry, after, rfl, ⟨below, further, loses⟩, last⟩
  have above : entry.1 < key := lt_of_parts_eq_append further loses.ne_nil
  obtain ⟨-, later, apart⟩ := List.pairwise_append.mp sorted
  rcases List.mem_append.mp member with first | others
  · exact lt_asymm above (apart _ first entry List.mem_cons_self)
  · rcases List.mem_cons.mp others with rfl | inAfter
    · exact lt_irrefl key above
    · exact last target ⟨_, inAfter, [], (List.append_nil _).symm, .rename target⟩

/-- Every name that is found in the rules of a document was declared for its path. Where a document
declares a name one that it declares for the path is found exactly when it does not lose the path,
and it never loses the path of a text. -/
theorem declared_name_found_iff {document : Mapping} {rules : Rules} (sorted : Sorted document)
    (read : ofDocument document = .ok rules) :
    (∀ path target, rules.renameAt? path = some target → document.Declares path target) ∧
    (∀ path target, document.Declares path target →
      ((rules.renameAt? path = some target ∨ ∃ other, other ≠ target ∧
        document.Declares path other ∧ rules.renameAt? path = some other) ↔
          ¬ document.Loses path)) ∧
    ∀ key target, (key, .text target) ∈ document → ¬ document.Loses (parts key) := by
  have gains : Gains [] document rules := gains_declareAll_of (fun _ _ => gains_declare) read
  have declared : ∀ path target, rules.renameAt? path = some target →
      document.Declares path target := fun path target found =>
    ((gains path).found target found).resolve_right (by simp [renameAt?_nil])
  refine ⟨declared, fun path target declares => ?_, fun _ _ => not_loses_of_text sorted⟩
  have kept : (rules.renameAt? path).isSome ↔ ¬ document.Loses path := by
    rw [(gains path).kept, and_iff_right (Or.inl ⟨target, declares⟩)]
  rw [← kept, Option.isSome_iff_exists]
  constructor
  · rintro (found | ⟨other, -, -, found⟩)
    · exact ⟨target, found⟩
    · exact ⟨other, found⟩
  · rintro ⟨other, found⟩
    by_cases same : other = target
    · exact .inl (same ▸ found)
    · exact .inr ⟨other, same, declared path other found, found⟩

/-- A document that describes a container both by a map inside another one and under a dotted key:
what the first one says about one of the keys inside is lost, and what it says about the other is
found. -/
def overlapping : Mapping :=
  [("A", .map [("B", .map [("C", .text "x"), ("D", .text "z")])]),
    ("A.B", .map [("C", .map [("E", .text "y")])])]

/-- The name for a key that is described again is lost, and the one for its neighbour is found. -/
theorem declared_name_found_iff_overlapping :
    Sorted overlapping ∧ ∃ rules, ofDocument overlapping = .ok rules ∧
      (overlapping.Declares ["A", "B", "D"] "z" ∧ rules.renameAt? ["A", "B", "D"] = some "z" ∧
        ¬ overlapping.Loses ["A", "B", "D"]) ∧
      overlapping.Declares ["A", "B", "C"] "x" ∧ rules.renameAt? ["A", "B", "C"] = none ∧
        overlapping.Loses ["A", "B", "C"] := by
  have sorted : Sorted overlapping := by decide
  have names : overlapping.declared =
      [(["A", "B", "C"], "x"), (["A", "B", "D"], "z"), (["A", "B", "C", "E"], "y")] := by decide
  have spared : overlapping.Declares ["A", "B", "D"] "z" :=
    Mapping.mem_declared_iff.mp (by rw [names]; simp)
  have dropped : overlapping.Declares ["A", "B", "C"] "x" :=
    Mapping.mem_declared_iff.mp (by rw [names]; simp)
  have found := (declared_name_found_iff sorted rfl).2.1
  refine ⟨sorted, _, rfl, ⟨spared, rfl, (found _ _ spared).mp (.inl rfl)⟩, dropped, rfl, ?_⟩
  by_contra kept
  rcases (found _ _ dropped).mpr kept with same | ⟨_, _, _, other⟩
  · cases same
  · cases other

/-- Not every name that is declared for a path, and is the only one, is found. -/
theorem described_key_drops_name :
    ¬ ∀ (document : Mapping) (rules : Rules), document.Ordered → ofDocument document = .ok rules →
      ∀ path target, document.Declares path target →
        (∀ other, document.Declares path other → other = target) →
          rules.renameAt? path = some target := by
  intro kept
  have ordered : overlapping.Ordered :=
    ⟨by decide, ⟨by decide, ⟨by decide, trivial, trivial, trivial⟩, trivial⟩,
      ⟨by decide, ⟨by decide, trivial, trivial⟩, trivial⟩, trivial⟩
  have names : overlapping.declared =
      [(["A", "B", "C"], "x"), (["A", "B", "D"], "z"), (["A", "B", "C", "E"], "y")] := by decide
  have only : ∀ other, overlapping.Declares ["A", "B", "C"] other → other = "x" := by
    intro other declares
    have member := Mapping.mem_declared_iff.mpr declares
    rw [names] at member
    simpa using member
  have found := kept overlapping _ ordered rfl ["A", "B", "C"] "x"
    (Mapping.mem_declared_iff.mp (by rw [names]; simp)) only
  cases found

end Rules

end TypedRecord
