import TypedRecord.Proofs.Paths
import TypedRecord.Renaming.Rules

/-!
# Trees of rules

Rules are nested, so a path of keys leads through them to a rule. A declaration is told by the new
names that are found along every path afterwards: a rename is found at its own path and nowhere
else, while merging a set of rules into those of a container replaces the whole rule of every key
that the set has, with all that is nested there. Rules whose keys are in order at every level are
determined by which paths have a rule and by the names there.
-/
namespace TypedRecord

open Entries TypedRecord.Path

/-- The rule at the end of a path that leads through nested rules. -/
def Rule.follow? : Rule → List String → Option Rule
  | rule, [] => some rule
  | rule, key :: rest => (find? rule.nested key).bind fun inner => inner.follow? rest

namespace Rule

/-- A path is followed part by part. -/
theorem follow?_append (rule : Rule) (path rest : List String) :
    rule.follow? (path ++ rest) = (rule.follow? path).bind fun inner => inner.follow? rest := by
  induction path generalizing rule with
  | nil => rfl
  | cons key tail ih =>
    rw [List.cons_append, follow?, follow?, Option.bind_assoc]
    congr 1
    funext inner
    exact ih inner

/-- A path leads on from a rule that keeps everything where there is none. -/
theorem follow?_getD_keep (found : Option Rule) (key : String) (rest : List String) :
    (found.getD .keep).follow? (key :: rest) =
      found.bind fun rule => rule.follow? (key :: rest) := by
  cases found <;> rfl

/-- An induction over the rules nested in a rule. -/
@[elab_as_elim] theorem induction {motive : Rule → Prop}
    (mk : ∀ rename nested, (∀ entry ∈ nested, motive entry.2) → motive (.mk rename nested)) :
    ∀ rule, motive rule
  | .mk rename nested => mk rename nested fun entry member =>
      have : sizeOf entry.2 < 1 + sizeOf rename + sizeOf nested := by
        have smaller := sizeOf_snd_lt member
        omega
      induction mk entry.2

mutual

/-- The keys of the rules nested in a rule are in ascending order at every level. -/
def Ordered : Rule → Prop
  | mk _ nested => Sorted nested ∧ OrderedEntries nested

/-- Every rule of some keys is ordered. -/
def OrderedEntries : List (String × Rule) → Prop
  | [] => True
  | (_, rule) :: rest => rule.Ordered ∧ OrderedEntries rest

end

/-- Rules that are ordered one by one. -/
theorem orderedEntries_iff {entries : Rules} :
    OrderedEntries entries ↔ ∀ entry ∈ entries, entry.2.Ordered := by
  induction entries with
  | nil => simp [OrderedEntries]
  | cons entry rest ih => simp [OrderedEntries, ih]

/-- What is nested in an ordered rule is ordered, whatever rule holds it. -/
theorem Ordered.nested {rule : Rule} (ordered : rule.Ordered) :
    (Rule.mk none rule.nested).Ordered := by
  obtain ⟨rename, nested⟩ := rule
  exact ordered

end Rule

namespace Rules

/-- Whether the keys of rules are in ascending order at every level. -/
abbrev Ordered (rules : Rules) : Prop := (Rule.mk none rules).Ordered

/-- The rule at a path of keys. -/
def at? (rules : Rules) (path : List String) : Option Rule := (Rule.mk none rules).follow? path

/-- The new name that the rule at a path gives. -/
def renameAt? (rules : Rules) (path : List String) : Option String :=
  (rules.at? path).bind Rule.rename

/-- A path leads through the rule of its first key. -/
theorem at?_cons (rules : Rules) (key : String) (rest : List String) :
    rules.at? (key :: rest) = (find? rules key).bind fun rule => rule.follow? rest := rfl

/-- Nothing is found where there are no rules. -/
theorem renameAt?_nil (path : List String) : renameAt? [] path = none := by
  cases path <;> rfl

/-- A path of several keys leads into the nested rules of the first one. -/
theorem at?_nested_rule (rules : Rules) (key next : String) (rest : List String) :
    (rules.rule key).nested.at? (next :: rest) = rules.at? (key :: next :: rest) :=
  Rule.follow?_getD_keep (find? rules key) next rest

/-! ### Changing the rule at a path -/

variable {rules : Rules}

/-- A change at segments replaces the rule of the first of them. -/
theorem update_eq_insert (rules : Rules) (first : String) (others : List String)
    (change : Rule → Rule) :
    ∃ placed, rules.update first others change = insert rules first placed := by
  cases others with
  | nil => exact ⟨_, rfl⟩
  | cons next rest => exact ⟨_, rfl⟩

/-- Along the path where a rule is changed, and further, the changed rule is found. -/
theorem at?_update_append (rules : Rules) (first : String) (others : List String)
    (change : Rule → Rule) (rest : List String) :
    (rules.update first others change).at? (first :: others ++ rest) =
      (change ((rules.at? (first :: others)).getD .keep)).follow? rest := by
  induction others generalizing rules first with
  | nil =>
    have held : rules.at? [first] = find? rules first := Option.bind_fun_some _
    rw [List.cons_append, List.nil_append, update, at?_cons, find?_insert_self, held]
    rfl
  | cons next others ih =>
    rw [List.cons_append, update, at?_cons, find?_insert_self, Option.bind_some]
    exact (ih (rules.rule first).nested next).trans (by rw [at?_nested_rule])

/-- A path that does not lead to or beyond a changed rule gives the same name as before. -/
theorem renameAt?_update_of_aside {first : String} {others path : List String}
    (change : Rule → Rule) (aside : ¬ first :: others <+: path) :
    (rules.update first others change).renameAt? path = rules.renameAt? path := by
  induction others generalizing rules first path with
  | nil =>
    cases path with
    | nil => rfl
    | cons key tail =>
      have different : first ≠ key := by
        rintro rfl
        exact aside (by simp)
      rw [update, renameAt?, renameAt?, at?_cons, at?_cons,
        find?_insert_of_ne rules _ different]
  | cons next others ih =>
    cases path with
    | nil => rfl
    | cons key tail =>
      by_cases same : first = key
      · subst same
        have inner : ¬ next :: others <+: tail := fun within =>
          aside ((List.prefix_cons_inj first).mpr within)
        rw [update, renameAt?, renameAt?, at?_cons, at?_cons, find?_insert_self,
          Option.bind_some]
        cases tail with
        | nil =>
          -- The rule on the way keeps its own name.
          cases held : find? rules first <;> simp [Rule.follow?, Rules.rule, held, Rule.rename,
            Rule.keep]
        | cons after tail =>
          have kept := @ih (rules.rule first).nested next (after :: tail) inner
          rw [renameAt?, renameAt?, at?_nested_rule] at kept
          exact kept
      · rw [update, renameAt?, renameAt?, at?_cons, at?_cons, find?_insert_of_ne rules _ same]

/-- A path that does not lead to or beyond a changed rule has a rule afterwards when it had one or
leads towards the changed one. -/
theorem isSome_at?_update {first : String} {others path : List String} (change : Rule → Rule)
    (aside : ¬ first :: others <+: path) :
    ((rules.update first others change).at? path).isSome ↔
      (rules.at? path).isSome ∨ path <+: first :: others := by
  induction others generalizing rules first path with
  | nil =>
    cases path with
    | nil => simp [at?, Rule.follow?]
    | cons key tail =>
      have different : first ≠ key := by
        rintro rfl
        exact aside (by simp)
      rw [update, at?_cons, at?_cons, find?_insert_of_ne rules _ different]
      simp [Ne.symm different]
  | cons next others ih =>
    cases path with
    | nil => simp [at?, Rule.follow?]
    | cons key tail =>
      by_cases same : first = key
      · subst same
        have inner : ¬ next :: others <+: tail := fun within =>
          aside ((List.prefix_cons_inj first).mpr within)
        rw [update, at?_cons, find?_insert_self, Option.bind_some, List.prefix_cons_inj]
        cases tail with
        | nil => simp [Rule.follow?]
        | cons after tail =>
          have known := @ih (rules.rule first).nested next (after :: tail) inner
          rw [at?_nested_rule] at known
          exact known
      · rw [update, at?_cons, at?_cons, find?_insert_of_ne rules _ same]
        simp [Ne.symm same]

/-! ### Declarations -/

/-- The rule at the parts of a path is the changed one. -/
theorem at?_updatePath_append (rules : Rules) (path : String) (change : Rule → Rule)
    (rest : List String) :
    (rules.updatePath path change).at? (parts path ++ rest) =
      (change ((rules.at? (parts path)).getD .keep)).follow? rest :=
  rules.at?_update_append (segments path).1 (segments path).2 change rest

/-- A path that does not lead to or beyond a dotted one gives the same name as before. -/
theorem renameAt?_updatePath_of_aside {path : String} {other : List String}
    (change : Rule → Rule) (aside : ¬ parts path <+: other) :
    (rules.updatePath path change).renameAt? other = rules.renameAt? other :=
  renameAt?_update_of_aside change aside

/-- A change at a dotted path replaces the rule of its first segment. -/
theorem updatePath_eq_insert (rules : Rules) (path : String) (change : Rule → Rule) :
    ∃ placed, rules.updatePath path change = insert rules (segments path).1 placed :=
  rules.update_eq_insert (segments path).1 (segments path).2 change

/-- A change at a path without dots replaces the rule of the key. -/
theorem updatePath_of_notMem (rules : Rules) {path : String} (dotless : '.' ∉ path.toList)
    (change : Rule → Rule) :
    rules.updatePath path change = insert rules path (change (rules.rule path)) := by
  rw [updatePath, segments_of_notMem dotless]
  rfl

/-- A rule found beyond a path is found in the rule at the path. -/
theorem follow?_at?_getD (rules : Rules) (path : List String) (key : String)
    (rest : List String) :
    ((rules.at? path).getD .keep).follow? (key :: rest) = rules.at? (path ++ key :: rest) := by
  rw [Rule.follow?_getD_keep, at?, at?, Rule.follow?_append]

/-- A rename is found at its path, and every other path gives the same name as before. -/
theorem renameAt?_rename (rules : Rules) (path target : String) (other : List String) :
    (rules.rename path target).renameAt? other =
      if other = parts path then some target else rules.renameAt? other := by
  by_cases within : parts path <+: other
  · obtain ⟨rest, rfl⟩ := within
    rw [renameAt?, rename, at?_updatePath_append]
    cases rest with
    | nil => simp [Rule.follow?, Rule.rename]
    | cons key rest =>
      rw [if_neg (by simp), renameAt?, ← follow?_at?_getD]
      rfl
  · have different : other ≠ parts path := by
      rintro rfl
      exact within List.prefix_rfl
    rw [if_neg different, rename, renameAt?_updatePath_of_aside _ within]

/-- A path has a rule after a rename when it had one before or leads to the renamed one. -/
theorem isSome_at?_rename (rules : Rules) (path target : String) (other : List String) :
    ((rules.rename path target).at? other).isSome ↔
      (rules.at? other).isSome ∨ other <+: parts path := by
  by_cases within : parts path <+: other
  · obtain ⟨rest, rfl⟩ := within
    rw [rename, at?_updatePath_append]
    cases rest with
    | nil => simp [Rule.follow?]
    | cons key rest =>
      have beyond : ¬ parts path ++ key :: rest <+: parts path := fun prefixed => by
        have longer := prefixed.length_le
        simp at longer
      rw [← follow?_at?_getD, or_iff_left beyond]
      rfl
  · exact isSome_at?_update _ within

/-- The name that is given with merged rules is found at the path, else the one that was there. -/
theorem renameAt?_merge_self (rules : Rules) (path : String) (name : Option String)
    (inner : Rules) :
    (rules.merge path name inner).renameAt? (parts path) =
      name.or (rules.renameAt? (parts path)) := by
  have found := rules.at?_updatePath_append path
    (fun held => .mk (name.or held.rename) (overlay held.nested inner)) []
  rw [List.append_nil] at found
  rw [renameAt?, merge, found, renameAt?]
  cases rules.at? (parts path) <;> rfl

/-- Merged rules replace the rules of their keys with all that is nested there, and leave the rules
of all other keys. -/
theorem renameAt?_merge_append {inner : Rules} (distinct : (keys inner).Nodup) (path : String)
    (name : Option String) (key : String) (rest : List String) :
    (rules.merge path name inner).renameAt? (parts path ++ key :: rest) =
      if contains inner key then inner.renameAt? (key :: rest)
      else rules.renameAt? (parts path ++ key :: rest) := by
  rw [renameAt?, merge, at?_updatePath_append, Rule.follow?, Rule.nested, find?_overlay distinct,
    contains]
  cases held : find? inner key with
  | some rule => simp [renameAt?, at?_cons, held]
  | none =>
    rw [Option.none_or, if_neg (by simp), renameAt?, ← follow?_at?_getD]
    rfl

/-- A path that does not lead to or beyond merged rules gives the same name as before. -/
theorem renameAt?_merge_of_aside {path : String} {other : List String} (name : Option String)
    (inner : Rules) (aside : ¬ parts path <+: other) :
    (rules.merge path name inner).renameAt? other = rules.renameAt? other :=
  renameAt?_updatePath_of_aside _ aside

/-- A declaration at a path makes a rule for its first segment and for no other key. -/
theorem isSome_find?_updatePath (rules : Rules) (path : String) (change : Rule → Rule)
    (key : String) :
    (find? (rules.updatePath path change) key).isSome ↔
      (find? rules key).isSome ∨ (segments path).1 = key := by
  obtain ⟨placed, same⟩ := rules.updatePath_eq_insert path change
  rw [same]
  by_cases first : (segments path).1 = key
  · subst first
    simp
  · simp [find?_insert_of_ne rules placed first, first]

/-! ### Order -/

/-- There is nothing out of order where there are no rules. -/
theorem ordered_nil : Ordered [] := ⟨List.Pairwise.nil, trivial⟩

/-- What stands under a key of ordered rules is ordered. -/
theorem Ordered.of_find? (ordered : rules.Ordered) {key : String} {rule : Rule}
    (found : find? rules key = some rule) : rule.Ordered :=
  Rule.orderedEntries_iff.mp ordered.2 (key, rule) (mem_of_find? found)

/-- The rule of a key of ordered rules is ordered. -/
theorem Ordered.rule (ordered : rules.Ordered) (key : String) : (rules.rule key).Ordered := by
  rw [Rules.rule]
  cases found : find? rules key with
  | none => exact ordered_nil
  | some rule => exact ordered.of_find? found

/-- Ordered rules stay ordered when a rule that is ordered is put under a key. -/
theorem Ordered.insert (ordered : rules.Ordered) (key : String) {rule : Rule}
    (inner : rule.Ordered) : Ordered (Entries.insert rules key rule) := by
  refine ⟨ordered.1.insert key rule, Rule.orderedEntries_iff.mpr fun entry member => ?_⟩
  rcases mem_insert member with rfl | before
  · exact inner
  · exact Rule.orderedEntries_iff.mp ordered.2 entry before

/-- Ordered rules stay ordered when ordered rules are put over them. -/
theorem Ordered.overlay (ordered : rules.Ordered) {inner : Rules} (later : inner.Ordered) :
    Ordered (Entries.overlay rules inner) := by
  refine ⟨ordered.1.overlay inner, Rule.orderedEntries_iff.mpr fun entry member => ?_⟩
  rcases mem_overlay member with before | new
  · exact Rule.orderedEntries_iff.mp ordered.2 entry before
  · exact Rule.orderedEntries_iff.mp later.2 entry new

/-- Ordered rules stay ordered under a change that keeps a rule ordered. -/
theorem Ordered.update (ordered : rules.Ordered) (first : String) (others : List String)
    {change : Rule → Rule} (kept : ∀ rule : Rule, rule.Ordered → (change rule).Ordered) :
    Ordered (rules.update first others change) := by
  induction others generalizing rules first with
  | nil => exact ordered.insert first (kept _ (ordered.rule first))
  | cons next rest ih =>
    exact ordered.insert first (ih (ordered.rule first).nested next)

/-- A rename keeps rules ordered. -/
theorem Ordered.rename (ordered : rules.Ordered) (path target : String) :
    Ordered (rules.rename path target) :=
  ordered.update _ _ fun | .mk _ _, held => held

/-- Merging ordered rules keeps rules ordered. -/
theorem Ordered.merge (ordered : rules.Ordered) (path : String) (name : Option String)
    {inner : Rules} (later : inner.Ordered) : Ordered (rules.merge path name inner) :=
  ordered.update _ _ fun | .mk _ _, held => Ordered.overlay held later

end Rules

/-- Ordered rules with the same names along every path, and rules at the same paths, are the
same. -/
theorem Rule.ext_follow? {first second : Rule} (firstOrdered : first.Ordered)
    (secondOrdered : second.Ordered)
    (same : ∀ path, (first.follow? path).map Rule.rename = (second.follow? path).map Rule.rename) :
    first = second := by
  induction first using Rule.induction generalizing second with
  | mk rename nested ih =>
    obtain ⟨otherRename, otherNested⟩ := second
    have names : rename = otherRename := Option.some.inj (same [])
    subst names
    have entries : nested = otherNested := by
      refine firstOrdered.1.ext secondOrdered.1 fun key => ?_
      have here : (find? nested key).map Rule.rename = (find? otherNested key).map Rule.rename := by
        simpa [Rule.follow?, Rule.nested] using same [key]
      cases one : find? nested key with
      | none =>
        rw [one] at here
        exact (Option.map_eq_none_iff.mp here.symm).symm
      | some inner =>
        rw [one] at here
        obtain ⟨other, two, -⟩ := Option.map_eq_some_iff.mp here.symm
        have below : inner = other := by
          refine ih (key, inner) (mem_of_find? one) (Rules.Ordered.of_find? firstOrdered one)
            (Rules.Ordered.of_find? secondOrdered two) fun path => ?_
          simpa [Rule.follow?, Rule.nested, one, two] using same (key :: path)
        rw [two, below]
    rw [entries]

end TypedRecord
