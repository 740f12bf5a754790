import TypedRecord.Proofs.DeclaredNames

/-!
# Two spellings of a document

A document of renaming rules may nest its maps, or it may write every rename as one text under a
dotted key: the name of a container under the path of the container. Where no key holds a dot and no
map is empty the rules of both spellings are the same. They are determined by what they tell: a name
is found along a path exactly when it is declared there, and a path leads to a rule exactly when a
name is declared there or further on.
-/
namespace TypedRecord

open Entries TypedRecord.Path

/-- A rule tells what is declared: a name is found along a path when it is declared there, and the
paths that lead to a rule are those towards a declared name. -/
structure Rule.Tells (rule : Rule) (declares : List String → String → Prop) : Prop where
  /-- The names that are found are those that are declared. -/
  names : ∀ path target, (rule.follow? path).bind Rule.rename = some target ↔ declares path target
  /-- There are rules on the way to declared names and nowhere else. -/
  paths : ∀ path, path ≠ [] → ((rule.follow? path).isSome ↔
    ∃ further target, declares further target ∧ path <+: further)

namespace Rule.Tells

variable {rule first second : Rule} {declares : List String → String → Prop}

/-- One name is declared for a path at most. -/
theorem unique (tells : rule.Tells declares) {path : List String} {one two : String}
    (here : declares path one) (there : declares path two) : one = two :=
  Option.some.inj (((tells.names path one).mpr here).symm.trans ((tells.names path two).mpr there))

/-- Ordered rules that tell the same are the same. -/
theorem ext (firstOrdered : first.Ordered) (secondOrdered : second.Ordered)
    (one : first.Tells declares) (two : second.Tells declares) : first = second := by
  refine ext_follow? firstOrdered secondOrdered fun path => ?_
  have names : (first.follow? path).bind Rule.rename = (second.follow? path).bind Rule.rename :=
    Option.ext fun target => (one.names path target).trans (two.names path target).symm
  have paths : (first.follow? path).isSome = (second.follow? path).isSome := by
    cases path with
    | nil => rfl
    | cons key rest =>
      rw [Bool.eq_iff_iff, one.paths _ (List.cons_ne_nil _ _), two.paths _ (List.cons_ne_nil _ _)]
  cases here : first.follow? path <;> cases there : second.follow? path <;>
    simp_all

/-- Where something is declared the paths that lead to a rule are those towards a declared name. -/
theorem isSome_iff (tells : rule.Tells declares) (declared : ∃ path target, declares path target)
    (path : List String) : (rule.follow? path).isSome ↔
      ∃ further target, declares further target ∧ path <+: further := by
  cases path with
  | nil => exact iff_of_true rfl (by simpa using declared)
  | cons key rest => exact tells.paths _ (List.cons_ne_nil _ _)

end Rule.Tells

/-- A value is plain when it is a text, or a map that is not empty, whose keys hold no dots and
whose values are plain. -/
inductive Value.Plain : Value → Prop
  /-- A text. -/
  | text (target : String) : Plain (.text target)
  /-- A map. -/
  | map {inside : Mapping} (filled : inside ≠ []) (dotless : inside.Dotless)
      (within : ∀ entry ∈ inside, Plain entry.2) : Plain (.map inside)

namespace Mapping

/-- A document is plain when its keys hold no dots and its values are plain. -/
def Plain (document : Mapping) : Prop := document.Dotless ∧ ∀ entry ∈ document, entry.2.Plain

/-- The flattened spelling of a document: each name that it declares, as a text under its path. -/
def flattened (document : Mapping) : Mapping :=
  ofList (document.declared.map fun name => (".".intercalate name.1, .text name.2))

end Mapping

/-! ### The nested spelling -/

/-- What a plain map holds is plain. -/
theorem Value.Plain.of_map {inside : Mapping} (plain : (Value.map inside).Plain) :
    inside ≠ [] ∧ inside.Dotless ∧ ∀ entry ∈ inside, entry.2.Plain := by
  cases plain with
  | map filled dotless within => exact ⟨filled, dotless, within⟩

/-- A plain value that can be read declares something. -/
theorem Value.exists_declares {value : Value} (readable : value.Readable) :
    value.Plain → ∃ path target, value.Declares path target := by
  induction readable with
  | text target => exact fun _ => ⟨[], target, .rename target⟩
  | @map inside named within ih =>
    intro plain
    obtain ⟨filled, -, plainWithin⟩ := plain.of_map
    cases found : find? inside Rules.containerKey with
    | some held =>
      obtain ⟨name, rfl⟩ := named held found
      exact ⟨[], name, .container found⟩
    | none =>
      -- A map without a name has an entry, and what that one declares is declared.
      obtain ⟨entry, held⟩ := List.exists_mem_of_ne_nil inside filled
      have unnamed : entry.1 ≠ Rules.containerKey := find?_eq_none_iff.mp found entry held
      have member : entry ∈ inside.contents := List.mem_filter.mpr ⟨held, by simpa using unnamed⟩
      obtain ⟨path, target, declares⟩ := ih entry member (plainWithin entry held)
      exact ⟨_, target, .inside member declares⟩

namespace Rules

/-- An entry without dots that is read where its key has no rule gives the rule of the key. -/
theorem exists_gives_of_declare {rules out : Rules} {key : String} {value : Value}
    (dotless : '.' ∉ key.toList) (fresh : find? rules key = none)
    (read : declare rules key value = .ok out) :
    ∃ rule, find? out key = some rule ∧ value.Gives rule := by
  have kept : rules.rule key = .keep := by rw [Rules.rule, fresh, Option.getD_none]
  cases value with
  | text target =>
    cases read
    rw [rename, updatePath_of_notMem rules dotless, kept]
    exact ⟨_, find?_insert_self _ _ _, .text target⟩
  | map inside =>
    obtain ⟨name, inner, named, within, rfl⟩ := declare_map_eq_ok.mp read
    have merged : overlay [] inner = inner := (ordered_ofDocument within).1.ofList_self
    rw [merge, updatePath_of_notMem rules dotless, kept]
    refine ⟨_, find?_insert_self _ _ _, ?_⟩
    simpa [Rule.keep, Rule.rename, Rule.nested, merged] using Value.Gives.map named within
  | _ => cases read

/-- An entry leaves the rules of all keys but its first segment. -/
theorem find?_declare_of_ne {rules out : Rules} {key other : String} {value : Value}
    (read : declare rules key value = .ok out) (different : (segments key).1 ≠ other) :
    find? out other = find? rules other := by
  obtain ⟨change, rfl⟩ := exists_updatePath_of_declare read
  obtain ⟨placed, same⟩ := rules.updatePath_eq_insert key change
  rw [same, find?_insert_of_ne rules placed different]

/-- Entries leave the rules of all keys but their first segments. -/
theorem find?_declareAll_of_forall_ne {document : Mapping} {rules out : Rules} {key : String}
    (read : declareAll rules document = .ok out)
    (different : ∀ entry ∈ document, (segments entry.1).1 ≠ key) :
    find? out key = find? rules key := by
  induction document generalizing rules with
  | nil =>
    cases read
    rfl
  | cons entry rest ih =>
    obtain ⟨here, further⟩ := List.forall_mem_cons.mp different
    obtain ⟨middle, first, later⟩ := declareAll_cons_eq_ok.mp read
    rw [ih later further, find?_declare_of_ne first here]

/-- Each entry of a sorted document without dots gives the rule of its key. -/
theorem exists_gives_of_mem {document : Mapping} (sorted : Sorted document)
    (dotless : document.Dotless) {rules out : Rules} (read : declareAll rules document = .ok out)
    {entry : String × Value} (member : entry ∈ document) (fresh : find? rules entry.1 = none) :
    ∃ rule, find? out entry.1 = some rule ∧ entry.2.Gives rule := by
  induction document generalizing rules with
  | nil => exact absurd member List.not_mem_nil
  | cons first rest ih =>
    obtain ⟨middle, here, later⟩ := declareAll_cons_eq_ok.mp read
    obtain ⟨firstDotless, restDotless⟩ := List.forall_mem_cons.mp dotless
    rcases List.mem_cons.mp member with rfl | further
    · obtain ⟨rule, found, gives⟩ := exists_gives_of_declare firstDotless fresh here
      refine ⟨rule, ?_, gives⟩
      rw [← found]
      refine find?_declareAll_of_forall_ne later fun other held => ?_
      rw [segments_of_notMem (restDotless _ (List.mem_map_of_mem held))]
      exact ne_of_gt (sorted.head_lt held)
    · refine ih sorted.tail restDotless later further ?_
      rw [find?_declare_of_ne here, fresh]
      rw [segments_of_notMem firstDotless]
      exact ne_of_lt (sorted.head_lt further)

end Rules

namespace Mapping

variable {document : Mapping} {key : String} {value : Value} {path : List String} {target : String}

/-- Below a key of a sorted document without dots its own value declares what is declared. -/
theorem declares_cons_of_mem (sorted : Sorted document) (dotless : document.Dotless)
    (member : (key, value) ∈ document) :
    document.Declares (key :: path) target ↔ value.Declares path target := by
  have single : ∀ entry ∈ document, parts entry.1 = [entry.1] := fun entry held =>
    parts_of_notMem (dotless _ (List.mem_map_of_mem held))
  constructor
  · rintro ⟨entry, held, below, same, declares⟩
    rw [single entry held, List.singleton_append, List.cons.injEq] at same
    obtain ⟨rfl, rfl⟩ := same
    have found := (sorted.find?_of_mem member).symm.trans (sorted.find?_of_mem held)
    cases Option.some.inj found
    exact declares
  · intro declares
    exact ⟨_, member, path, by rw [single _ member, List.singleton_append], declares⟩

/-- Below a key of a sorted document without dots its own value leads to what is declared. -/
theorem exists_declares_cons_of_mem (sorted : Sorted document) (dotless : document.Dotless)
    (member : (key, value) ∈ document) :
    (∃ further target, document.Declares further target ∧ key :: path <+: further) ↔
      ∃ further target, value.Declares further target ∧ path <+: further := by
  constructor
  · rintro ⟨further, target, declares, after, rfl⟩
    rw [List.cons_append, declares_cons_of_mem sorted dotless member] at declares
    exact ⟨_, target, declares, List.prefix_append path after⟩
  · rintro ⟨further, target, declares, towards⟩
    exact ⟨key :: further, target, (declares_cons_of_mem sorted dotless member).mpr declares,
      (List.prefix_cons_inj key).mpr towards⟩

/-- A key under which a document without dots declares something is one of its own. -/
theorem not_declares_of_notMem (dotless : document.Dotless) (absent : key ∉ keys document) :
    ¬ document.Declares (key :: path) target := by
  rintro ⟨entry, held, below, same, -⟩
  rw [parts_of_notMem (dotless _ (List.mem_map_of_mem held)), List.singleton_append,
    List.cons.injEq] at same
  exact absent (same.1 ▸ List.mem_map_of_mem held)

end Mapping

namespace Rules

/-- A sorted document without dots has rules for its own keys only. -/
theorem find?_ofDocument_of_notMem {document : Mapping} (dotless : document.Dotless) {rules : Rules}
    (read : ofDocument document = .ok rules) {key : String} (absent : key ∉ keys document) :
    find? rules key = none := by
  refine find?_declareAll_of_forall_ne read fun entry member => ?_
  rw [segments_of_notMem (dotless _ (List.mem_map_of_mem member))]
  rintro rfl
  exact absent (List.mem_map_of_mem member)

/-- The rules of a sorted document without dots tell what it declares, when each of its values
declares something and the rules that the values give tell it. -/
theorem tells_ofDocument_of {document : Mapping} (sorted : Sorted document)
    (dotless : document.Dotless) {rules : Rules} (read : ofDocument document = .ok rules)
    (declared : ∀ entry ∈ document, ∃ path target, entry.2.Declares path target)
    (each : ∀ entry ∈ document, ∀ rule, entry.2.Gives rule → rule.Tells entry.2.Declares) :
    (Rule.mk none rules).Tells document.Declares := by
  have found : ∀ key rest, (Rule.mk none rules).follow? (key :: rest) =
      (find? rules key).bind fun rule => rule.follow? rest := fun _ _ => rfl
  constructor
  · intro path target
    cases path with
    | nil => exact iff_of_false nofun fun declares => Mapping.not_describes_nil declares.describes
    | cons key rest =>
      rw [found]
      by_cases held : key ∈ keys document
      · obtain ⟨⟨key, value⟩, member, rfl⟩ := List.mem_map.mp held
        obtain ⟨rule, present, gives⟩ := exists_gives_of_mem sorted dotless read member rfl
        rw [present, Option.bind_some, Mapping.declares_cons_of_mem sorted dotless member]
        exact (each _ member rule gives).names rest target
      · rw [find?_ofDocument_of_notMem dotless read held]
        exact iff_of_false nofun (Mapping.not_declares_of_notMem dotless held)
  · intro path nonempty
    obtain ⟨key, rest, rfl⟩ := List.exists_cons_of_ne_nil nonempty
    rw [found]
    by_cases held : key ∈ keys document
    · obtain ⟨⟨key, value⟩, member, rfl⟩ := List.mem_map.mp held
      obtain ⟨rule, present, gives⟩ := exists_gives_of_mem sorted dotless read member rfl
      rw [present, Option.bind_some, Mapping.exists_declares_cons_of_mem sorted dotless member]
      exact (each _ member rule gives).isSome_iff (declared _ member) rest
    · rw [find?_ofDocument_of_notMem dotless read held]
      refine iff_of_false nofun ?_
      rintro ⟨further, target, declares, after, rfl⟩
      rw [List.cons_append] at declares
      exact Mapping.not_declares_of_notMem dotless held declares

/-- The rule of a text tells what the text declares. -/
theorem tells_text (name : String) :
    (Rule.mk (some name) []).Tells (Value.text name).Declares := by
  constructor
  · intro path target
    cases path with
    | nil =>
      constructor
      · rintro ⟨⟩
        exact .rename name
      · rintro ⟨⟩
        rfl
    | cons key rest => exact iff_of_false (by rintro ⟨⟩) (by rintro ⟨⟩)
  · intro path nonempty
    obtain ⟨key, rest, rfl⟩ := List.exists_cons_of_ne_nil nonempty
    refine iff_of_false Bool.false_ne_true ?_
    rintro ⟨further, target, ⟨⟩, towards⟩
    exact nonempty (List.prefix_nil.mp towards)

/-- The name of a map and the rules of its contents tell what the map declares, when the rules tell
what the contents do. -/
theorem tells_map {inside : Mapping} {name : Option String} {inner : Rules}
    (named : find? inside containerKey = name.map .text)
    (tells : (Rule.mk none inner).Tells inside.contents.Declares) :
    (Rule.mk name inner).Tells (Value.map inside).Declares := by
  have declares : ∀ path target, path ≠ [] →
      ((Value.map inside).Declares path target ↔ inside.contents.Declares path target) := by
    intro path target nonempty
    simp [Value.declares_map_iff, nonempty]
  constructor
  · intro path target
    cases path with
    | nil =>
      have undeclared : ¬ inside.contents.Declares [] target :=
        fun declares => Mapping.not_describes_nil declares.describes
      rw [Value.declares_map_iff, named]
      simp [Rule.follow?, Rule.rename, undeclared]
    | cons key rest =>
      rw [declares _ _ (List.cons_ne_nil key rest)]
      exact tells.names (key :: rest) target
  · intro path nonempty
    obtain ⟨key, rest, rfl⟩ := List.exists_cons_of_ne_nil nonempty
    refine (tells.paths (key :: rest) nonempty).trans ?_
    refine exists_congr fun further => exists_congr fun target => and_congr_left fun towards => ?_
    exact (declares further target (towards.ne_nil nonempty)).symm

/-- The rule that a plain value gives tells what the value declares. -/
theorem tells_of_gives {value : Value} (readable : value.Readable) :
    value.Sorted → value.Plain → ∀ rule, value.Gives rule → rule.Tells value.Declares := by
  induction readable with
  | text name =>
    rintro - - rule ⟨⟩
    exact tells_text name
  | @map inside _ within ih =>
    intro sorted plain rule gives
    obtain ⟨-, dotless, plainWithin⟩ := plain.of_map
    obtain ⟨name, inner, named, read, rfl⟩ := gives.of_map
    have contentsSorted : Sorted inside.contents := sorted.1.erase containerKey
    have contentsDotless : inside.contents.Dotless := by
      intro key member
      obtain ⟨entry, held, rfl⟩ := List.mem_map.mp member
      exact dotless _ (List.mem_map_of_mem (Mapping.mem_of_mem_contents held))
    refine tells_map named (tells_ofDocument_of contentsSorted contentsDotless read ?_ ?_)
    · intro entry member
      exact Value.exists_declares (within entry member)
        (plainWithin entry (Mapping.mem_of_mem_contents member))
    · intro entry member
      have held := Mapping.mem_of_mem_contents member
      exact ih entry member (Value.sortedEntries_iff.mp sorted.2 entry held)
        (plainWithin entry held)

/-! ### The flattened spelling -/

/-- In a document of texts a path leads to a rule when it did before or leads towards a key. -/
theorem isSome_at?_declareAll_of_texts {document : Mapping} {rules out : Rules}
    (texts : ∀ entry ∈ document, ∃ target, entry.2 = .text target)
    (read : declareAll rules document = .ok out) (path : List String) :
    (out.at? path).isSome ↔
      (rules.at? path).isSome ∨ ∃ entry ∈ document, path <+: parts entry.1 := by
  induction document generalizing rules with
  | nil =>
    cases read
    simp
  | cons entry rest ih =>
    obtain ⟨⟨target, text⟩, further⟩ := List.forall_mem_cons.mp texts
    obtain ⟨middle, first, later⟩ := declareAll_cons_eq_ok.mp read
    rw [text] at first
    cases first
    rw [ih further later, isSome_at?_rename, or_assoc, List.exists_mem_cons_iff]

/-- The rules of a document of texts tell what it declares, when it declares one name for a path at
most. -/
theorem tells_ofDocument_of_texts {document : Mapping} {rules : Rules}
    (texts : ∀ entry ∈ document, ∃ target, entry.2 = .text target)
    (only : ∀ path one two, document.Declares path one → document.Declares path two → one = two)
    (read : ofDocument document = .ok rules) : (Rule.mk none rules).Tells document.Declares := by
  have gains : Gains [] document rules := gains_declareAll_of (fun _ _ => gains_declare) read
  constructor
  · intro path target
    have declared : ∀ name, rules.renameAt? path = some name → document.Declares path name :=
      fun name found => ((gains path).found name found).resolve_right (by simp [renameAt?_nil])
    have unlost : ¬ document.Loses path := by
      rintro ⟨before, entry, after, rfl, ⟨below, -, loses⟩, -⟩
      obtain ⟨name, text⟩ := texts entry (List.mem_append_right _ List.mem_cons_self)
      rw [text] at loses
      cases loses
    constructor
    · exact declared target
    · intro declares
      have present := (gains path).kept.mpr ⟨.inl ⟨target, declares⟩, unlost⟩
      obtain ⟨name, found⟩ := Option.isSome_iff_exists.mp present
      rw [only path target name declares (declared name found)]
      exact found
  · intro path nonempty
    have start : ¬ (Rules.at? [] path).isSome := by
      cases path with
      | nil => exact absurd rfl nonempty
      | cons key rest => simp [at?_cons, find?]
    have known := isSome_at?_declareAll_of_texts texts read path
    rw [or_iff_right start] at known
    refine known.trans ⟨?_, ?_⟩
    · rintro ⟨entry, member, towards⟩
      obtain ⟨target, text⟩ := texts entry member
      exact ⟨parts entry.1, target, ⟨entry, member, [], by simp, text ▸ .rename target⟩, towards⟩
    · rintro ⟨further, target, ⟨entry, member, below, rfl, declares⟩, towards⟩
      obtain ⟨name, text⟩ := texts entry member
      rw [text] at declares
      cases declares
      exact ⟨entry, member, by simpa using towards⟩

end Rules

/-- A value declares names at paths of segments without dots. -/
theorem Value.Declares.notMem {value : Value} {path : List String} {target : String}
    (declares : value.Declares path target) : ∀ key ∈ path, '.' ∉ key.toList := by
  induction declares with
  | rename _ => exact fun _ member => nomatch member
  | container _ => exact fun _ member => nomatch member
  | inside _ _ ih =>
    intro key member
    rcases List.mem_append.mp member with here | further
    · exact notMem_parts _ key here
    · exact ih key further

namespace Mapping

variable {document : Mapping}

/-- A flattened spelling is made of the names that are declared. -/
theorem mem_flattened {entry : String × Value} (member : entry ∈ document.flattened) :
    ∃ path target, document.Declares path target ∧
      entry = (".".intercalate path, .text target) := by
  rcases mem_overlay member with nothing | listed
  · exact absurd nothing List.not_mem_nil
  · obtain ⟨⟨path, target⟩, declared, rfl⟩ := List.mem_map.mp listed
    exact ⟨path, target, mem_declared_iff.mp declared, rfl⟩

/-- The parts of the text that dots make of a path where a name is declared are the path. -/
theorem Declares.parts_intercalate {path : List String} {target : String}
    (declares : document.Declares path target) : parts (".".intercalate path) = path := by
  obtain ⟨entry, member, below, rfl, within⟩ := declares
  refine Path.parts_intercalate (List.cons_ne_nil _ _) fun key held => ?_
  rcases List.mem_append.mp held with here | further
  · exact notMem_parts _ key here
  · exact within.notMem key further

/-- Both spellings declare the same names, where one name is declared for a path at most. -/
theorem declares_flattened_iff
    (only : ∀ path one two, document.Declares path one → document.Declares path two → one = two)
    {path : List String} {target : String} :
    document.flattened.Declares path target ↔ document.Declares path target := by
  constructor
  · rintro ⟨entry, member, below, rfl, within⟩
    obtain ⟨declared, name, declares, rfl⟩ := mem_flattened member
    cases within
    rwa [List.append_nil, declares.parts_intercalate]
  · intro declares
    have listed : ∃ pair ∈ document.declared.map
        fun name => (".".intercalate name.1, Value.text name.2),
        pair.1 = ".".intercalate path :=
      ⟨_, List.mem_map_of_mem (mem_declared_iff.mpr declares), rfl⟩
    obtain ⟨value, found⟩ := Option.isSome_iff_exists.mp
      ((isSome_find?_overlay [] _ _).mpr (.inr listed))
    obtain ⟨other, name, declared, same⟩ := mem_flattened (mem_of_find? found)
    obtain ⟨joined, rfl⟩ := Prod.mk.injEq .. ▸ same
    have paths : path = other := by
      rw [← declares.parts_intercalate, joined, declared.parts_intercalate]
    subst paths
    cases only path target name declares declared
    exact ⟨_, mem_of_find? found, [], by rw [declares.parts_intercalate, List.append_nil],
      .rename target⟩

end Mapping

namespace Rules

/-- A document is read exactly when all its values are texts and maps and all names of containers
are texts, and is a bad argument otherwise. Where no key holds a dot and no map inside is empty, the
document and its flattened spelling have the same rules, and along every path the name that is found
is the one that is declared there. -/
theorem ofDocument_flattened :
    (∀ document : Mapping, ((∃ rules, ofDocument document = .ok rules) ↔ document.Readable) ∧
      (¬ document.Readable → ∃ error, ofDocument document = .error error ∧
        error.kind = .badArgument)) ∧
    ∀ document : Mapping, document.Ordered → document.Readable → document.Plain →
      ∃ rules, ofDocument document = .ok rules ∧ ofDocument document.flattened = .ok rules ∧
        ∀ path target, rules.renameAt? path = some target ↔ document.Declares path target := by
  refine ⟨ofDocument_eq_ok_iff, fun document ordered readable plain => ?_⟩
  obtain ⟨rules, read⟩ := (ofDocument_eq_ok_iff document).1.mpr readable
  have tells : (Rule.mk none rules).Tells document.Declares :=
    tells_ofDocument_of ordered.1 plain.1 read
      (fun entry member => Value.exists_declares (readable entry member) (plain.2 entry member))
      fun entry member => tells_of_gives (readable entry member)
        (Value.sortedEntries_iff.mp ordered.2 entry member) (plain.2 entry member)
  have only : ∀ path one two, document.Declares path one → document.Declares path two →
      one = two := fun _ _ _ => tells.unique
  have texts : ∀ entry ∈ document.flattened, ∃ target, entry.2 = .text target := by
    intro entry member
    obtain ⟨path, target, -, rfl⟩ := Mapping.mem_flattened member
    exact ⟨target, rfl⟩
  have flattenedReadable : document.flattened.Readable := by
    intro entry member
    obtain ⟨target, text⟩ := texts entry member
    exact text ▸ .text target
  obtain ⟨flat, flatRead⟩ := (ofDocument_eq_ok_iff document.flattened).1.mpr flattenedReadable
  have flatTells : (Rule.mk none flat).Tells document.Declares := by
    have declares : document.flattened.Declares = document.Declares :=
      funext₂ fun path target => propext (Mapping.declares_flattened_iff only)
    have told := tells_ofDocument_of_texts texts (declares ▸ only) flatRead
    rwa [declares] at told
  have same : Rule.mk none rules = Rule.mk none flat :=
    tells.ext (ordered_ofDocument read) (ordered_ofDocument flatRead) flatTells
  cases same
  exact ⟨rules, read, flatRead, tells.names⟩

/-- A document that nests its maps, with a name for one container and none for the other. -/
def nestedSpelling : Mapping :=
  [("Application", .map [("Name", .text "AppName"),
      ("Owner", .map [("Mail", .text "Contact.Mail")]), ("__key", .text "App")]),
    ("City", .text "Town")]

/-- The nested document and its flattened spelling have the same rules. -/
theorem ofDocument_flattened_nested :
    nestedSpelling.Ordered ∧ nestedSpelling.Readable ∧ nestedSpelling.Plain ∧
      nestedSpelling.flattened = [("Application", .text "App"),
        ("Application.Name", .text "AppName"), ("Application.Owner.Mail", .text "Contact.Mail"),
        ("City", .text "Town")] ∧
      ∃ rules, ofDocument nestedSpelling = .ok rules ∧
        ofDocument nestedSpelling.flattened = .ok rules ∧
        rules.renameAt? ["Application", "Owner", "Mail"] = some "Contact.Mail" := by
  have ordered : nestedSpelling.Ordered :=
    ⟨by decide, ⟨by decide, trivial, ⟨by decide, trivial, trivial⟩, trivial, trivial⟩, trivial,
      trivial⟩
  have readable : nestedSpelling.Readable := (ofDocument_flattened.1 nestedSpelling).1.mp ⟨_, rfl⟩
  have plain : nestedSpelling.Plain := by
    refine ⟨by decide, ?_⟩
    simp only [nestedSpelling, List.forall_mem_cons]
    refine ⟨.map (List.cons_ne_nil _ _) (by decide) ?_, .text _, List.forall_mem_nil _⟩
    simp only [List.forall_mem_cons]
    refine ⟨.text _, .map (List.cons_ne_nil _ _) (by decide) ?_, .text _, List.forall_mem_nil _⟩
    simp only [List.forall_mem_cons]
    exact ⟨.text _, List.forall_mem_nil _⟩
  have declares : nestedSpelling.Declares ["Application", "Owner", "Mail"] "Contact.Mail" :=
    Mapping.mem_declared_iff.mp (by decide)
  obtain ⟨rules, read, flatRead, names⟩ :=
    ofDocument_flattened.2 nestedSpelling ordered readable plain
  exact ⟨ordered, readable, plain, rfl, rules, read, flatRead, (names _ _).mpr declares⟩

end Rules

end TypedRecord
