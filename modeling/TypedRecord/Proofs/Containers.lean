import TypedRecord.Proofs.Unruled

/-!
# Moving a value into a container

A rule may send the value of a key into the map under another key. What is put at a path replaces
what was put there before, so it matters which of the two is put last: the value is added to the
container that already stands there, but the container wipes the value out when it comes second.
Keys are renamed in their order. Main statement: the value joins the entries of the container
exactly when the key of the container comes before that of the value.
-/
namespace TypedRecord

open Entries TypedRecord.Path

namespace Rules

/-- A mapping has under a key a map with a value under a name and with all entries of another map as
they were. -/
def Joins (out : Mapping) (container name : String) (value : Value) (inside : Mapping) : Prop :=
  ∃ joined, find? out container = some (.map joined) ∧ find? joined name = some value ∧
    ∀ key held, find? inside key = some held → find? joined key = some held

/-- A mapping has a value under one key and under another one, the container, a map that has nothing
under a name. The rules move the value to that name in the container, which has no rule itself, and
nothing else is moved there or over an entry of the container. -/
structure Transfers (rules : Rules) (data : Mapping) (source container name : String)
    (value : Value) (inside : Mapping) : Prop where
  /-- The keys are in order. -/
  sorted : Sorted data
  /-- The value stands under its key. -/
  sourceHeld : find? data source = some value
  /-- The map stands under its key. -/
  containerHeld : find? data container = some (.map inside)
  /-- The name is free. -/
  vacant : find? inside name = none
  /-- The value is moved as it is. -/
  ruled : rules.rule source = .mk (some (container ++ "." ++ name)) []
  /-- The container is kept. -/
  unruled : find? rules container = none
  /-- The container and the name are each one segment of a path. -/
  dotless : '.' ∉ container.toList ∧ '.' ∉ name.toList
  /-- Every other value goes elsewhere. -/
  spared : ∀ key ∈ keys data, key ≠ source → key ≠ container →
    ∀ entry ∈ name :: keys inside, Apart (parts (rules.target key)) [container, entry]

/-- What is found at the target of an entry of a sorted mapping, or further, is what the entry has
there, where the targets of all entries with later keys part from it. -/
theorem follow?_apply_of_last {rules : Rules} {data : Mapping} (sorted : Sorted data)
    {entry : String × Value} (member : entry ∈ data) {rest : List String}
    (beside : ∀ key ∈ keys data, entry.1 < key →
      Apart (parts (rules.target key)) (parts (rules.target entry.1) ++ rest)) :
    (Value.map (rules.apply data)).follow? (parts (rules.target entry.1) ++ rest) =
      (applyInside (rules.rule entry.1).nested entry.2).follow? rest := by
  obtain ⟨before, after, rfl⟩ := List.append_of_mem member
  have moved : rules.moved (before ++ entry :: after) = rules.moved before ++
      (rules.target entry.1, applyInside (rules.rule entry.1).nested entry.2) ::
        rules.moved after := by
    simp only [moved_eq_map, List.map_append, List.map_cons]
  rw [apply, moved]
  apply Mapping.follow?_ofPaths_of_last
  intro other held
  rw [moved_eq_map] at held
  obtain ⟨later, inAfter, rfl⟩ := List.mem_map.mp held
  have named : later.1 ∈ keys (before ++ entry :: after) :=
    List.mem_map_of_mem (List.mem_append_right _ (List.mem_cons_of_mem _ inAfter))
  exact beside later.1 named (Sorted.head_lt (List.pairwise_append.mp sorted).2.1 inAfter)

namespace Transfers

variable {rules : Rules} {data inside : Mapping} {source container name : String} {value : Value}

/-- The value is put under its name in the container. -/
theorem parts_source (transfers : rules.Transfers data source container name value inside) :
    parts (rules.target source) = [container, name] := by
  rw [target, transfers.ruled]
  exact parts_append_dot transfers.dotless.1 transfers.dotless.2

/-- The container is put where it was. -/
theorem parts_container (transfers : rules.Transfers data source container name value inside) :
    parts (rules.target container) = [container] := by
  rw [target, rule_of_find?_eq_none transfers.unruled]
  exact parts_of_notMem transfers.dotless.1

/-- An entry of the container is found where it was when nothing is put over it after the container:
no other value is, and neither is the one that is moved, if its name is another one or it comes
first. -/
theorem follow?_container (transfers : rules.Transfers data source container name value inside)
    {entry : String} (known : entry ∈ name :: keys inside)
    (clear : entry ≠ name ∨ source < container) :
    (Value.map (rules.apply data)).follow? [container, entry] = find? inside entry := by
  have beside : ∀ key ∈ keys data, container < key →
      Apart (parts (rules.target key)) (parts (rules.target container) ++ [entry]) := by
    intro key held later
    rw [transfers.parts_container]
    by_cases moved : key = source
    · have different : entry ≠ name :=
        clear.resolve_right fun first => lt_asymm first (moved ▸ later)
      rw [moved, transfers.parts_source]
      simp [Apart, Ne.symm different, different]
    · exact transfers.spared key held moved (ne_of_gt later) entry known
  have found :=
    follow?_apply_of_last transfers.sorted (mem_of_find? transfers.containerHeld) beside
  rw [transfers.parts_container, rule_of_find?_eq_none transfers.unruled] at found
  calc
    (Value.map (rules.apply data)).follow? [container, entry]
      = (applyInside [] (.map inside)).follow? [entry] := found
    _ = find? inside entry := by simp [applyInside_nil, Value.follow?_map_cons]

/-- The value is found under its name in the container when the container comes first. -/
theorem follow?_source (transfers : rules.Transfers data source container name value inside)
    (first : container < source) :
    (Value.map (rules.apply data)).follow? [container, name] = some value := by
  have beside : ∀ key ∈ keys data, source < key →
      Apart (parts (rules.target key)) (parts (rules.target source) ++ []) := by
    intro key held later
    rw [List.append_nil, transfers.parts_source]
    exact transfers.spared key held (ne_of_gt later) (ne_of_gt (lt_trans first later)) name
      List.mem_cons_self
  have found := follow?_apply_of_last transfers.sorted (mem_of_find? transfers.sourceHeld) beside
  rw [List.append_nil, transfers.parts_source, transfers.ruled] at found
  calc
    (Value.map (rules.apply data)).follow? [container, name]
      = (applyInside [] value).follow? [] := found
    _ = some value := by rw [applyInside_nil, Value.follow?_nil]

/-- The container and the value stand under different keys, as only one of them has a rule. -/
theorem source_ne_container
    (transfers : rules.Transfers data source container name value inside) :
    source ≠ container := by
  rintro rfl
  have ruled := transfers.ruled
  rw [rule_of_find?_eq_none transfers.unruled] at ruled
  cases ruled

/-- A value joins the entries of a container exactly when the key of the container comes first. -/
theorem joins_iff (transfers : rules.Transfers data source container name value inside) :
    Joins (rules.apply data) container name value inside ↔ container < source := by
  constructor
  · rintro ⟨joined, held, placed, -⟩
    by_contra notFirst
    have last : source < container :=
      lt_of_le_of_ne (not_lt.mp notFirst) transfers.source_ne_container
    -- The container was put back after the value, as it was: with nothing under the name.
    have wiped := transfers.follow?_container List.mem_cons_self (.inr last)
    rw [Value.follow?_map_cons, held, transfers.vacant] at wiped
    simp [Value.follow?, placed] at wiped
  · intro first
    have found := transfers.follow?_source first
    obtain ⟨joined, isMap⟩ := @Value.exists_map_of_follow? _ _ [container] [name] found (by simp)
    have reached : find? (rules.apply data) container = some (.map joined) := by
      simpa [Value.follow?] using isMap
    have within : ∀ entry, (Value.map (rules.apply data)).follow? [container, entry] =
        find? joined entry := by
      intro entry
      simp [Value.follow?_map_cons, reached]
    refine ⟨joined, reached, ?_, ?_⟩
    · rw [← within, found]
    · intro entry held kept
      have different : entry ≠ name := by
        rintro rfl
        exact absurd (transfers.vacant.symm.trans kept) (by simp)
      have known : entry ∈ name :: keys inside :=
        List.mem_cons_of_mem name (List.mem_map_of_mem (mem_of_find? kept))
      rw [← within, transfers.follow?_container known (.inl different), kept]

end Transfers

/-- The one rule that moves the value of a key to a name in the container under another key. -/
def relocation (source container name : String) : Rules :=
  rename [] source (container ++ "." ++ name)

/-- The rule is for the key itself. -/
theorem relocation_eq {source : String} (dotless : '.' ∉ source.toList) (container name : String) :
    relocation source container name =
      [(source, .mk (some (container ++ "." ++ name)) [])] := by
  simp only [relocation, rename, updatePath, segments_of_notMem dotless, update]
  rfl

variable {data inside : Mapping} {source container name : String} {value : Value}

/-- Let no key of a mapping but the two that take part be a path that leads to a name in a container
or to one of its entries, or on from there. A value that is renamed to that name, which is free,
joins the entries of the container exactly when the key of the container comes before its own. -/
theorem joins_relocation_iff (sorted : Sorted data) (sourceHeld : find? data source = some value)
    (containerHeld : find? data container = some (.map inside)) (different : source ≠ container)
    (vacant : find? inside name = none)
    (dotless : '.' ∉ source.toList ∧ '.' ∉ container.toList ∧ '.' ∉ name.toList)
    (spared : ∀ key ∈ keys data, key ≠ source → key ≠ container →
      ∀ entry ∈ name :: keys inside, Apart (parts key) [container, entry]) :
    Joins ((relocation source container name).apply data) container name value inside ↔
      container < source := by
  have rules := relocation_eq dotless.1 container name
  have unruled : ∀ key, key ≠ source → find? (relocation source container name) key = none := by
    intro key other
    simp [rules, find?, Ne.symm other]
  have transfers :
      (relocation source container name).Transfers data source container name value inside :=
    { sorted, sourceHeld, containerHeld, vacant
      ruled := by simp [rules, rule, find?]
      unruled := unruled container (Ne.symm different)
      dotless := dotless.2
      spared := by
        intro key held notSource notContainer
        rw [target, rule_of_find?_eq_none (unruled key notSource)]
        exact spared key held notSource notContainer }
  exact transfers.joins_iff

/-- A mapping with a street in a container and a town beside it. -/
def townAfterHome : Mapping :=
  [("Home", .map [("Street", .text "Rue")]), ("Note", .null), ("Town", .text "Lyon")]

/-- A town whose key comes after that of the container joins the street. -/
theorem joins_relocation_iff_town :
    Sorted townAfterHome ∧
      Joins ((relocation "Town" "Home" "City").apply townAfterHome) "Home" "City" (.text "Lyon")
        [("Street", .text "Rue")] := by
  have sorted : Sorted townAfterHome := by decide
  have joins : Joins ((relocation "Town" "Home" "City").apply townAfterHome) "Home" "City"
      (.text "Lyon") [("Street", .text "Rue")] ↔ "Home" < "Town" :=
    joins_relocation_iff sorted rfl rfl (by decide) rfl (by decide) (by decide)
  exact ⟨sorted, joins.mpr (by decide)⟩

/-- A value does not join a container whose key comes after its own: the container wipes it out. -/
theorem container_wipes_value :
    ¬ ∀ (data inside : Mapping) (source container name : String) (value : Value), Sorted data →
      find? data source = some value → find? data container = some (.map inside) →
      source ≠ container → find? inside name = none →
      '.' ∉ source.toList ∧ '.' ∉ container.toList ∧ '.' ∉ name.toList →
      Joins ((relocation source container name).apply data) container name value inside := by
  intro joins
  obtain ⟨joined, held, placed, -⟩ := joins [("City", .text "Lyon"),
    ("Home", .map [("Street", .text "Rue")])] [("Street", .text "Rue")] "City" "Home" "City"
    (.text "Lyon") (by decide) rfl rfl (by decide) rfl (by decide)
  have wiped : (relocation "City" "Home" "City").apply [("City", .text "Lyon"),
      ("Home", .map [("Street", .text "Rue")])] = [("Home", .map [("Street", .text "Rue")])] := rfl
  rw [wiped] at held
  cases held
  cases placed

end Rules

end TypedRecord
