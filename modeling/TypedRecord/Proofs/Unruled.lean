import TypedRecord.Hydration
import TypedRecord.Proofs.Moves

/-!
# Rules that match nothing

A key without a rule is put at the path of its own name, so it keeps its name only when it holds no
dot; a dotted key is split like a target. Where rules are declared at all they are applied, and a
mapping is passed on as it is where there are none. Main statement: rules that match no key of a
mapping leave it as it is exactly when none of its keys holds a dot, and a rule for an absent key
changes what is hydrated exactly when it is the first rule and some key does.
-/
namespace TypedRecord

open Entries TypedRecord.Path

namespace Mapping

/-- Values put at paths stand under keys without dots. -/
theorem dotless_ofPaths (entries : List (String × Value)) : (ofPaths entries).Dotless := by
  intro key member dotted
  have elsewhere : ∀ entry ∈ entries, (segments entry.1).1 ≠ key := by
    rintro entry - rfl
    exact notMem_segments entry.1 dotted
  obtain ⟨entry, held, same⟩ := List.mem_map.mp member
  exact find?_eq_none_iff.mp (find?_ofPaths_eq_none elsewhere) entry held same

/-- Values put at paths without dots are inserted under keys. -/
theorem ofPaths_of_dotless {entries : List (String × Value)} (dotless : Dotless entries) :
    ofPaths entries = ofList entries := by
  have step : ∀ (mapping : Mapping), ∀ entry ∈ entries,
      mapping.insertPath entry.1 entry.2 = insert mapping entry.1 entry.2 :=
    fun mapping entry member =>
      mapping.insertPath_of_notMem (dotless entry.1 (List.mem_map_of_mem member)) entry.2
  exact List.foldl_ext _ _ [] step

/-- The entries of a sorted mapping, put at paths, make that mapping again exactly when no key holds
a dot. -/
theorem ofPaths_eq_self_iff {data : Mapping} (sorted : Sorted data) :
    ofPaths data = data ↔ data.Dotless := by
  constructor
  · intro same
    rw [← same]
    exact dotless_ofPaths data
  · intro dotless
    rw [ofPaths_of_dotless dotless, sorted.ofList_self]

end Mapping

namespace Rules

/-- A key that has no rule is kept. -/
theorem rule_of_find?_eq_none {rules : Rules} {key : String} (absent : find? rules key = none) :
    rules.rule key = .keep := by
  rw [rule, absent, Option.getD_none]

/-- Without rules a value is not changed. -/
theorem applyInside_nil (value : Value) : applyInside [] value = value := by
  cases value <;> rfl

/-- Renaming depends only on the rules of the keys that are there. -/
theorem apply_congr {rules others : Rules} {data : Mapping}
    (agree : ∀ key ∈ keys data, rules.rule key = others.rule key) :
    rules.apply data = others.apply data := by
  have same : rules.moved data = others.moved data := by
    rw [moved_eq_map, moved_eq_map]
    apply List.map_congr_left
    intro entry member
    rw [target, target, agree entry.1 (List.mem_map_of_mem member)]
  rw [apply, apply, same]

/-- Where no key has a rule, every value is put at the path of its own key. -/
theorem apply_of_unruled {rules : Rules} {data : Mapping}
    (unruled : ∀ key ∈ keys data, find? rules key = none) :
    rules.apply data = Mapping.ofPaths data := by
  have same : rules.moved data = data := by
    rw [moved_eq_map]
    calc
      data.map _ = data.map id := by
        apply List.map_congr_left
        intro entry member
        have kept := rule_of_find?_eq_none (unruled entry.1 (List.mem_map_of_mem member))
        rw [target, kept]
        exact Prod.ext rfl (applyInside_nil entry.2)
      _ = data := List.map_id data
  rw [apply, same]

/-- A rule for a key that is absent from a mapping does not change how the mapping is renamed. -/
theorem apply_insert_of_absent (rules : Rules) {data : Mapping} {key : String} (rule : Rule)
    (absent : key ∉ keys data) : apply (insert rules key rule) data = rules.apply data := by
  apply apply_congr
  intro other member
  have different : key ≠ other := by
    rintro rfl
    exact absent member
  rw [Rules.rule, Rules.rule, find?_insert_of_ne rules rule different]

/-- There is a rule where one was added. -/
theorem isEmpty_insert (rules : Rules) (key : String) (rule : Rule) :
    (insert rules key rule).isEmpty = false := by
  cases rules with
  | nil => rfl
  | cons first rest =>
    rw [Entries.insert]
    split
    · rfl
    · split <;> rfl

end Rules

namespace Hydrator

variable {data : Mapping}

/-- A hydrator with a rule for one more key, or another rule for it. -/
def withRule (hydrator : Hydrator) (key : String) (rule : Rule) : Hydrator :=
  { hydrator with rules := insert hydrator.rules key rule }

/-- With one more rule, for a key that is absent, the rules in use are those of before. -/
theorem rename_withRule (hydrator : Hydrator) {key : String} (rule : Rule)
    (absent : key ∉ keys data) :
    (hydrator.withRule key rule).rename data = hydrator.rules.apply data := by
  have applied : (insert hydrator.rules key rule).isEmpty = false :=
    Rules.isEmpty_insert hydrator.rules key rule
  simp only [rename, withRule, applied, Bool.false_eq_true, ↓reduceIte]
  exact Rules.apply_insert_of_absent hydrator.rules rule absent

/-- An empty set of rules renames by leaving alone, which is what applying it does exactly when no
key holds a dot. -/
theorem apply_eq_rename_iff (sorted : Sorted data) {hydrator : Hydrator} :
    hydrator.rules.apply data = hydrator.rename data ↔
      (hydrator.rules.isEmpty → data.Dotless) := by
  by_cases unruled : hydrator.rules.isEmpty
  · have empty : hydrator.rules = [] := List.isEmpty_iff.mp unruled
    have applied : hydrator.rules.apply data = Mapping.ofPaths data :=
      Rules.apply_of_unruled fun key _ => by rw [empty]; rfl
    rw [rename, if_pos unruled, applied, Mapping.ofPaths_eq_self_iff sorted]
    exact ⟨fun dotless _ => dotless, fun dotless => dotless unruled⟩
  · rw [rename, if_neg unruled]
    exact iff_of_true rfl fun empty => absurd empty unruled

/-- An entity is made from a mapping as a hydrator with the same rules renames it. -/
theorem createFrom_congr {registry : Registry} {name : String} {first second : Hydrator}
    (same : first.rename data = second.rename data) :
    registry.createFrom name data first.rules = registry.createFrom name data second.rules := by
  simp only [rename] at same
  simp only [Registry.createFrom, same]

/-- Rules that match no key of a mapping are inert exactly when none of its keys holds a dot: so
long as that is so, applying them gives the mapping back, an empty set of rules may be applied or
not, and a rule for an absent key changes nothing; a dotted key is split whenever rules are applied,
so then the first rule changes the mapping whatever key it is for. -/
theorem unmatched_rules_inert_iff (sorted : Sorted data) :
    (∀ rules : Rules, (∀ key ∈ keys data, find? rules key = none) →
      (rules.apply data = data ↔ data.Dotless)) ∧
    (∀ hydrator : Hydrator, hydrator.rules.isEmpty →
      (hydrator.rules.apply data = hydrator.rename data ↔ data.Dotless)) ∧
    (∀ (hydrator : Hydrator) (key : String) (rule : Rule), key ∉ keys data →
      ((hydrator.withRule key rule).rename data = hydrator.rename data ↔
        (hydrator.rules.isEmpty → data.Dotless))) ∧
    ∀ (registry : Registry) (name : String) (hydrator : Hydrator) (key : String) (rule : Rule),
      key ∉ keys data → (hydrator.rules.isEmpty → data.Dotless) →
        registry.createFrom name data (hydrator.withRule key rule).rules =
          registry.createFrom name data hydrator.rules := by
  refine ⟨?_, ?_, ?_, ?_⟩
  · intro rules unruled
    rw [Rules.apply_of_unruled unruled, Mapping.ofPaths_eq_self_iff sorted]
  · intro hydrator unruled
    rw [apply_eq_rename_iff sorted]
    exact ⟨fun dotless => dotless unruled, fun dotless _ => dotless⟩
  · intro hydrator key rule absent
    rw [hydrator.rename_withRule rule absent, apply_eq_rename_iff sorted]
  · intro registry name hydrator key rule absent dotless
    apply createFrom_congr
    rw [hydrator.rename_withRule rule absent, apply_eq_rename_iff sorted]
    exact dotless

/-- A mapping with a dotted key keeps it when there are no rules and loses it to the first one. -/
theorem unmatched_rules_inert_iff_dotted :
    Sorted [("a", Value.int 1), ("a.b", .int 2)] ∧
      "x" ∉ keys [("a", Value.int 1), ("a.b", .int 2)] ∧
      (((ofRegistry []).withRule "x" .keep).rename [("a", .int 1), ("a.b", .int 2)] =
          (ofRegistry []).rename [("a", .int 1), ("a.b", .int 2)] ↔
        ((ofRegistry []).rules.isEmpty →
          Mapping.Dotless [("a", .int 1), ("a.b", .int 2)])) := by
  have sorted : Sorted [("a", Value.int 1), ("a.b", .int 2)] := by decide
  have absent : "x" ∉ keys [("a", Value.int 1), ("a.b", .int 2)] := by decide
  exact ⟨sorted, absent, (unmatched_rules_inert_iff sorted).2.2.1 (ofRegistry []) "x" .keep absent⟩

/-- Not every mapping whose keys have no rules is left as it is. -/
theorem dotted_key_is_split :
    ¬ ∀ (rules : Rules) (data : Mapping), Sorted data →
      (∀ key ∈ keys data, find? rules key = none) → rules.apply data = data := by
  intro kept
  have same := kept (Rules.rename [] "x" "y") [("a.b", .int 1)] (by decide) (by decide)
  have split : Rules.apply (Rules.rename [] "x" "y") [("a.b", .int 1)] =
      [("a", .map [("b", .int 1)])] := rfl
  rw [split] at same
  simp at same

end Hydrator

end TypedRecord
