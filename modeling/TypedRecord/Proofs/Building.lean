import Mathlib.Data.List.Infix
import TypedRecord.Proofs.Documents

/-!
# Building rules by calls

Rules can be built call by call instead of being read from a document. A rename is declared alike
both ways. Rules for the keys inside a container are merged into those that are there when a
document is read, and they replace the whole rule of the container, under a key that is not taken
for a path, when they are nested by a call. So both ways agree as long as every call that nests
rules declares again what was declared for its container before, and what is built tells of every
path what the last call that speaks of the path does.
-/
namespace TypedRecord.Rules

open Entries TypedRecord.Path

/-- A call that declares rules. -/
inductive Call where
  /-- A new name for the value at a dotted path. -/
  | rename (path target : String)
  /-- The name of the value under a key and the rules for the keys inside it. -/
  | nest (key : String) (name : Option String) (inner : Rules)

namespace Call

/-- The rules after a call. -/
def build (rules : Rules) : Call → Rules
  | rename path target => rules.rename path target
  | nest key name inner => rules.nest key name inner

/-- The rules after what a call declares is merged as the entry of a document is. -/
def merge (rules : Rules) : Call → Rules
  | rename path target => rules.rename path target
  | nest key name inner => rules.merge key name inner

/-- An entry of a document spells a call: a text is a rename, and a map is the name of its container
with the rules of its contents. -/
inductive SpelledBy : Call → String × Value → Prop
  /-- A rename. -/
  | rename (path target : String) : SpelledBy (.rename path target) (path, .text target)
  /-- A name and rules for the keys inside. -/
  | nest {key : String} {name : Option String} {inner : Rules} {inside : Mapping}
      (gives : (Value.map inside).Gives (.mk name inner)) :
      SpelledBy (.nest key name inner) (key, .map inside)

/-- The rules of a call are in order at every level. -/
def Ordered : Call → Prop
  | rename _ _ => True
  | nest _ _ inner => inner.Ordered

/-- A call fits rules that it is added to: it nests rules under a key that is no path, names the
container if it was named, and has rules for all keys inside that had one. -/
def Fits (rules : Rules) : Call → Prop
  | rename _ _ => True
  | nest key name inner => '.' ∉ key.toList ∧ (name = none → (rules.rule key).rename = none) ∧
      ∀ held, contains (rules.rule key).nested held → contains inner held

/-- What a call tells of a path: the name there, if any, or nothing at all. A rename speaks of its
own path, and nested rules speak of all paths that start with their key. -/
def told? : Call → List String → Option (Option String)
  | rename path target, other => if other = parts path then some (some target) else none
  | nest key name inner, head :: rest =>
    if head = key then some (((Rule.mk name inner).follow? rest).bind Rule.rename) else none
  | nest _ _ _, [] => none

end Call

/-- The rules that are built by calls. -/
def built (calls : List Call) : Rules := calls.foldl Call.build []

/-- The rules of the entries that calls stand for, merged in their order. -/
def merged (calls : List Call) : Rules := calls.foldl Call.merge []

/-- Calls are built one after another. -/
theorem built_concat (calls : List Call) (call : Call) :
    built (calls ++ [call]) = call.build (built calls) := List.foldl_concat ..

/-- Calls are merged one after another. -/
theorem merged_concat (calls : List Call) (call : Call) :
    merged (calls ++ [call]) = call.merge (merged calls) := List.foldl_concat ..

/-! ### Documents -/

/-- An entry that spells a call is read as the call is merged. -/
theorem Call.SpelledBy.declare {call : Call} {entry : String × Value}
    (spelled : call.SpelledBy entry) (rules : Rules) :
    Rules.declare rules entry.1 entry.2 = .ok (call.merge rules) := by
  cases spelled with
  | rename path target => rfl
  | nest gives =>
    obtain ⟨_, _, named, read, same⟩ := gives.of_map
    cases same
    exact declare_map_eq_ok.mpr ⟨_, _, named, read, rfl⟩

/-- Entries that spell calls are read as the calls are merged. -/
theorem declareAll_of_spelled {calls : List Call} {entries : Mapping}
    (spelled : List.Forall₂ Call.SpelledBy calls entries) (rules : Rules) :
    declareAll rules entries = .ok (calls.foldl Call.merge rules) := by
  induction spelled generalizing rules with
  | nil => rfl
  | cons first _ ih => exact declareAll_cons_eq_ok.mpr ⟨_, first.declare rules, ih _⟩

/-! ### Agreement -/

/-- Rules as a document gives them: in order at every level, under keys without dots. -/
structure Regular (rules : Rules) : Prop where
  /-- The keys are in order at every level. -/
  ordered : rules.Ordered
  /-- No key holds a dot. -/
  dotless : ∀ key, contains rules key → '.' ∉ key.toList

/-- A change at a dotted path makes a rule for a key without dots. -/
theorem dotless_updatePath {rules : Rules} (dotless : ∀ key, contains rules key → '.' ∉ key.toList)
    (path : String) (change : Rule → Rule) (key : String)
    (held : contains (rules.updatePath path change) key) : '.' ∉ key.toList := by
  rcases (isSome_find?_updatePath rules path change key).mp held with before | rfl
  · exact dotless key before
  · exact notMem_segments path

/-- Merging a call keeps rules regular. -/
theorem Regular.merge {rules : Rules} (regular : rules.Regular) {call : Call}
    (ordered : call.Ordered) : (call.merge rules).Regular := by
  cases call with
  | rename path target =>
    exact ⟨regular.ordered.rename path target, dotless_updatePath regular.dotless path _⟩
  | nest key name inner =>
    exact ⟨regular.ordered.merge key name ordered, dotless_updatePath regular.dotless key _⟩

/-- Merged calls make regular rules. -/
theorem regular_merged {calls : List Call} (ordered : ∀ call ∈ calls, call.Ordered) :
    (merged calls).Regular := by
  induction calls using List.reverseRecOn with
  | nil => exact ⟨ordered_nil, nofun⟩
  | append_singleton calls call ih =>
    rw [merged_concat]
    exact (ih fun other member => ordered other (List.mem_append_left _ member)).merge
      (ordered call List.mem_concat_self)

/-- Nested rules are what is merged exactly when they fit. -/
theorem build_eq_merge_iff {rules : Rules} (regular : rules.Regular) {call : Call}
    (ordered : call.Ordered) : call.build rules = call.merge rules ↔ call.Fits rules := by
  cases call with
  | rename path target => exact iff_of_true rfl trivial
  | nest key name inner =>
    change rules.nest key name inner = rules.merge key name inner ↔ _
    by_cases dotless : '.' ∉ key.toList
    · have named : name = name.or (rules.rule key).rename ↔
          (name = none → (rules.rule key).rename = none) := by
        cases name <;> simp [eq_comm]
      have covered := overlay_eq_self_iff (regular.ordered.rule key).nested.1 ordered.1
      rw [nest, Rules.merge, updatePath_of_notMem rules dotless, insert_inj, Rule.mk.injEq, named,
        @eq_comm _ inner, covered, Call.Fits, and_iff_right dotless]
    · -- A key with dots is used as it is by the one, and cut at them by the other.
      refine iff_of_false (fun same => ?_) fun fits => dotless fits.1
      have held : contains (rules.merge key name inner) key := by
        rw [← same, nest, contains, find?_insert_self]
        rfl
      exact dotless (dotless_updatePath regular.dotless key _ key held)

/-! ### What is built -/

/-- After a call a path has the name that the call tells, or else the one from before. -/
theorem renameAt?_build (rules : Rules) (call : Call) (path : List String) :
    (call.build rules).renameAt? path = (call.told? path).getD (rules.renameAt? path) := by
  cases call with
  | rename target name =>
    rw [Call.build, renameAt?_rename, Call.told?]
    split <;> rfl
  | nest key name inner =>
    cases path with
    | nil => rfl
    | cons head rest =>
      rw [Call.build, nest, renameAt?, at?_cons, Call.told?]
      by_cases same : head = key
      · subst same
        rw [find?_insert_self, if_pos rfl]
        rfl
      · rw [find?_insert_of_ne _ _ (Ne.symm same), if_neg same]
        rfl

/-- A path has the name that the last call that speaks of it tells. -/
theorem renameAt?_built (calls : List Call) (path : List String) :
    (built calls).renameAt? path = (calls.reverse.findSome? fun call => call.told? path).join := by
  induction calls using List.reverseRecOn with
  | nil => exact renameAt?_nil path
  | append_singleton calls call ih =>
    rw [built_concat, renameAt?_build, ih, List.reverse_concat, List.findSome?_cons]
    cases call.told? path <;> rfl

/-- Entries of a document are read as the calls that they spell are merged. The rules that calls
build are the merged ones after every call exactly when every call fits what was declared before it,
and along every path the name is found that the last call that speaks of the path tells. -/
theorem built_eq_merged_iff (calls : List Call) (ordered : ∀ call ∈ calls, call.Ordered) :
    (∀ entries, List.Forall₂ Call.SpelledBy calls entries →
      ofDocument entries = .ok (merged calls)) ∧
    ((∀ earlier, earlier <+: calls → built earlier = merged earlier) ↔
      ∀ earlier call, earlier ++ [call] <+: calls → call.Fits (merged earlier)) ∧
    ∀ path, (built calls).renameAt? path =
      (calls.reverse.findSome? fun call => call.told? path).join := by
  have step : ∀ earlier call, earlier ++ [call] <+: calls →
      (call.build (merged earlier) = call.merge (merged earlier) ↔ call.Fits (merged earlier)) := by
    intro earlier call within
    have known : ∀ other ∈ earlier ++ [call], other.Ordered :=
      fun other member => ordered other (within.subset member)
    exact build_eq_merge_iff
      (regular_merged fun other member => known other (List.mem_append_left _ member))
      (known call List.mem_concat_self)
  refine ⟨fun entries spelled => declareAll_of_spelled spelled [], ⟨?_, ?_⟩, renameAt?_built calls⟩
  · intro agree earlier call within
    have before := agree earlier ((List.prefix_append earlier [call]).trans within)
    have after := agree (earlier ++ [call]) within
    rw [built_concat, merged_concat, before] at after
    exact (step earlier call within).mp after
  · intro fits earlier within
    induction earlier using List.reverseRecOn with
    | nil => rfl
    | append_singleton earlier call ih =>
      rw [built_concat, merged_concat, ih ((List.prefix_append earlier [call]).trans within)]
      exact (step earlier call within).mpr (fits earlier call within)

/-- A container is described first, and a key inside it is renamed later. -/
def described : List Call :=
  [.nest "Application" (some "App") [("Kind", .mk (some "Sort") [])],
    .rename "Application.Name" "AppName"]

/-- Both names are found when the container is described first, and a document spells the calls. -/
theorem built_eq_merged_iff_described :
    (∀ call ∈ described, call.Ordered) ∧
      (∀ earlier call, earlier ++ [call] <+: described → call.Fits (merged earlier)) ∧
      ofDocument [("Application", .map [("Kind", .text "Sort"), ("__key", .text "App")]),
        ("Application.Name", .text "AppName")] = .ok (built described) ∧
      (built described).renameAt? ["Application"] = some "App" ∧
      (built described).renameAt? ["Application", "Kind"] = some "Sort" ∧
      (built described).renameAt? ["Application", "Name"] = some "AppName" := by
  have ordered : ∀ call ∈ described, call.Ordered := by
    simp [described, Call.Ordered, Ordered, Rule.Ordered, Rule.OrderedEntries, Sorted]
  have agree : ∀ earlier, earlier <+: described → built earlier = merged earlier := by
    intro earlier within
    have member : earlier ∈ described.inits := (List.mem_inits _ _).mpr within
    simp only [described, List.inits, List.map_cons, List.map_nil, List.mem_cons,
      List.not_mem_nil, or_false] at member
    rcases member with rfl | rfl | rfl <;> rfl
  obtain ⟨spelled, fitting, found⟩ := built_eq_merged_iff described ordered
  refine ⟨ordered, fitting.mp agree, ?_, found _, found _, found _⟩
  rw [agree described List.prefix_rfl]
  exact spelled _
    (.cons (.nest (@Value.Gives.map _ (some "App") _ rfl rfl)) (.cons (.rename _ _) .nil))

/-- Calls do not always build the rules of the document that they spell: nested rules discard what
was declared inside their container. -/
theorem nested_rules_discard_rename :
    ¬ ∀ (calls : List Call) (entries : Mapping), (∀ call ∈ calls, call.Ordered) →
      List.Forall₂ Call.SpelledBy calls entries → ofDocument entries = .ok (built calls) := by
  intro agree
  have read := agree
    [.rename "Application.Name" "AppName",
      .nest "Application" none [("Kind", .mk (some "Sort") [])]]
    [("Application.Name", .text "AppName"), ("Application", .map [("Kind", .text "Sort")])]
    (by simp [Call.Ordered, Ordered, Rule.Ordered, Rule.OrderedEntries, Sorted])
    (.cons (.rename _ _) (.cons (.nest (@Value.Gives.map _ none _ rfl rfl)) .nil))
  have names := congrArg (fun result => (result.toOption.getD []).renameAt? ["Application", "Name"])
    read
  cases names

end TypedRecord.Rules
