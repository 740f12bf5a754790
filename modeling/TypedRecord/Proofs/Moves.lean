import TypedRecord.Proofs.Normal
import TypedRecord.Proofs.Paths
import TypedRecord.Proofs.Renaming

/-!
# Where the values of a renamed mapping go

Every entry of a mapping has a destination: the parts of its new name, or its own key. When the
destinations of a level part from each other, each value arrives at its destination, changed only
inside and only by the rules for what is inside, and nothing else is found in the result. The same
holds at every level that the rules reach.
-/
namespace TypedRecord

open Entries TypedRecord.Path

/-- No key of a mapping holds a dot. -/
def Mapping.Dotless (data : Mapping) : Prop := ∀ key ∈ keys data, '.' ∉ key.toList

instance (data : Mapping) : Decidable data.Dotless := inferInstanceAs (Decidable (∀ _ ∈ _, _))

namespace Mapping

/-- Values that are put at paths leave alone what is found along a path that parts from all of
them. -/
theorem follow?_foldl_insertPath_of_apart {entries : List (String × Value)} {other : List String}
    (apart : ∀ entry ∈ entries, Apart (parts entry.1) other) (mapping : Mapping) :
    (Value.map (entries.foldl (fun held entry => insertPath held entry.1 entry.2)
      mapping)).follow? other = (Value.map mapping).follow? other := by
  induction entries generalizing mapping with
  | nil => rfl
  | cons entry rest ih =>
    obtain ⟨first, later⟩ := List.forall_mem_cons.mp apart
    rw [List.foldl_cons, ih later, follow?_insertPath_of_apart mapping entry.2 first]

/-- What is found along a path, or further, is the value that was put there last, where everything
that is put later parts from it. -/
theorem follow?_ofPaths_of_last {before after : List (String × Value)} {entry : String × Value}
    {rest : List String} (beside : ∀ other ∈ after, Apart (parts other.1) (parts entry.1 ++ rest)) :
    (Value.map (ofPaths (before ++ entry :: after))).follow? (parts entry.1 ++ rest) =
      entry.2.follow? rest := by
  rw [ofPaths, List.foldl_append, List.foldl_cons, follow?_foldl_insertPath_of_apart beside,
    follow?_insertPath_append]

/-- Of values put at paths that part from each other, each is found along its path and further. -/
theorem follow?_ofPaths_append {entries : List (String × Value)}
    (separate : entries.Pairwise fun first second => Apart (parts first.1) (parts second.1))
    {entry : String × Value} (member : entry ∈ entries) (rest : List String) :
    (Value.map (ofPaths entries)).follow? (parts entry.1 ++ rest) = entry.2.follow? rest := by
  obtain ⟨before, after, rfl⟩ := List.append_of_mem member
  obtain ⟨-, later, -⟩ := List.pairwise_append.mp separate
  exact follow?_ofPaths_of_last fun other held =>
    (List.rel_of_pairwise_cons later held).symm.append rest

/-- Nothing is found along a path that parts from all those where values are put. -/
theorem follow?_ofPaths_of_apart {entries : List (String × Value)} {other : List String}
    (nonempty : other ≠ []) (apart : ∀ entry ∈ entries, Apart (parts entry.1) other) :
    (Value.map (ofPaths entries)).follow? other = none := by
  rw [ofPaths, follow?_foldl_insertPath_of_apart apart, Value.follow?_empty nonempty]

end Mapping

namespace Rules

/-! ### Destinations -/

/-- Where the value under a key goes: to the parts of its new name, or to the key itself when it
gets none. -/
def destination (rules : Rules) (key : String) : List String :=
  match (rules.rule key).rename with
  | some name => parts name
  | none => [key]

/-- A level of a mapping is separate when its keys hold no dots and the destinations of its entries
part from each other. -/
def Separate (rules : Rules) (data : Mapping) : Prop :=
  data.Dotless ∧ data.Pairwise fun first second =>
    Apart (rules.destination first.1) (rules.destination second.1)

instance (rules : Rules) (data : Mapping) : Decidable (rules.Separate data) :=
  inferInstanceAs (Decidable (_ ∧ _))

mutual

/-- Every level that rules reach inside a value is separate. -/
def SeparateInside (rules : Rules) : Value → Prop
  | .map entries => rules.isEmpty ∨ (rules.Separate entries ∧ SeparateEntries rules entries)
  | _ => True

/-- Every level that rules reach inside the values of a mapping is separate. -/
def SeparateEntries (rules : Rules) : List (String × Value) → Prop
  | [] => True
  | (key, value) :: rest =>
    SeparateInside (rules.rule key).nested value ∧ SeparateEntries rules rest

end

/-- Values that are separate one by one. -/
theorem separateEntries_iff {rules : Rules} {data : Mapping} :
    SeparateEntries rules data ↔
      ∀ entry ∈ data, SeparateInside (rules.rule entry.1).nested entry.2 := by
  induction data with
  | nil => simp [SeparateEntries]
  | cons entry rest ih => simp [SeparateEntries, ih]

/-- Whatever a mapping holds stands at a destination or inside what stands there, or it is a map on
the way to one. -/
def LeadsNowhereElse (rules : Rules) (data out : Mapping) : Prop :=
  ∀ path found, path ≠ [] → (Value.map out).follow? path = some found →
    ∃ entry ∈ data, rules.destination entry.1 <+: path ∨
      (path <+: rules.destination entry.1 ∧ ∃ entries, found = .map entries)

mutual

/-- A value arrives as it was, unless it is a map and there are rules for what is inside; then each
value inside arrives at its own destination and nothing else does. -/
def ArrivesAs (rules : Rules) : Value → Value → Prop
  | .map entries, result =>
    if rules.isEmpty then result = .map entries
    else ∃ out, result = .map out ∧ ArriveIn rules out entries ∧ LeadsNowhereElse rules entries out
  | value, result => result = value

/-- Each entry of a mapping has its value at its destination in another mapping. -/
def ArriveIn (rules : Rules) (out : Mapping) : List (String × Value) → Prop
  | [] => True
  | (key, value) :: rest =>
    (∃ result, (Value.map out).follow? (rules.destination key) = some result ∧
      ArrivesAs (rules.rule key).nested value result) ∧ ArriveIn rules out rest

end

/-- A mapping moves to another one when each of its values arrives at its destination and nothing
else does. -/
def Moves (rules : Rules) (data out : Mapping) : Prop :=
  ArriveIn rules out data ∧ rules.LeadsNowhereElse data out

/-- Values that arrive one by one. -/
theorem arriveIn_iff {rules : Rules} {data out : Mapping} :
    ArriveIn rules out data ↔ ∀ entry ∈ data, ∃ result,
      (Value.map out).follow? (rules.destination entry.1) = some result ∧
        ArrivesAs (rules.rule entry.1).nested entry.2 result := by
  induction data with
  | nil => simp [ArriveIn]
  | cons entry rest ih => simp [ArriveIn, ih]

/-! ### Renaming moves every value -/

/-- A key without dots goes to the parts of the path it is put at. -/
theorem parts_target {rules : Rules} {key : String} (dotless : '.' ∉ key.toList) :
    parts (rules.target key) = rules.destination key := by
  rw [target, destination]
  cases (rules.rule key).rename with
  | none => exact parts_of_notMem dotless
  | some name => rfl

/-- The paths of a separate level part from each other. -/
theorem Separate.pairwise_moved {rules : Rules} {data : Mapping} (level : rules.Separate data) :
    (rules.moved data).Pairwise fun first second => Apart (parts first.1) (parts second.1) := by
  obtain ⟨dotless, apart⟩ := level
  rw [moved_eq_map, List.pairwise_map]
  apply apart.imp_of_mem
  intro first second firstHeld secondHeld parted
  rw [parts_target (dotless first.1 (List.mem_map_of_mem firstHeld)),
    parts_target (dotless second.1 (List.mem_map_of_mem secondHeld))]
  exact parted

/-- What is put for an entry of a separate level is found at the destination of the entry. -/
theorem Separate.follow?_apply {rules : Rules} {data : Mapping} (level : rules.Separate data)
    {entry : String × Value} (member : entry ∈ data) :
    (Value.map (rules.apply data)).follow? (rules.destination entry.1) =
      some (applyInside (rules.rule entry.1).nested entry.2) := by
  have moved : (rules.target entry.1, applyInside (rules.rule entry.1).nested entry.2) ∈
      rules.moved data := by
    rw [moved_eq_map]
    exact List.mem_map_of_mem member
  have found := Mapping.follow?_ofPaths_append level.pairwise_moved moved []
  have destined : parts (rules.target entry.1) = rules.destination entry.1 :=
    parts_target (level.1 entry.1 (List.mem_map_of_mem member))
  rw [List.append_nil, Value.follow?_nil, destined] at found
  exact found

/-- What is found after a separate level is renamed is found before a destination or beyond one. -/
theorem Separate.exists_destination {rules : Rules} {data : Mapping}
    (level : rules.Separate data) {path : List String} {found : Value} (nonempty : path ≠ [])
    (reached : (Value.map (rules.apply data)).follow? path = some found) :
    ∃ entry ∈ data, path <+: rules.destination entry.1 ∨ rules.destination entry.1 <+: path := by
  by_contra elsewhere
  push Not at elsewhere
  have apart : ∀ moved ∈ rules.moved data, Apart (parts moved.1) path := by
    intro moved member
    rw [moved_eq_map] at member
    obtain ⟨entry, held, rfl⟩ := List.mem_map.mp member
    obtain ⟨notBefore, notBeyond⟩ := elsewhere entry held
    rw [parts_target (level.1 entry.1 (List.mem_map_of_mem held))]
    exact ⟨notBeyond, notBefore⟩
  have nothing := Mapping.follow?_ofPaths_of_apart nonempty apart
  rw [← apply, reached] at nothing
  exact absurd nothing (by simp)

/-- A separate level moves when every value on it arrives as the rules for what is inside say. -/
theorem Separate.moves {rules : Rules} {data : Mapping} (level : rules.Separate data)
    (inside : ∀ entry ∈ data, ArrivesAs (rules.rule entry.1).nested entry.2
      (applyInside (rules.rule entry.1).nested entry.2)) :
    rules.Moves data (rules.apply data) := by
  constructor
  · rw [arriveIn_iff]
    intro entry member
    exact ⟨_, level.follow?_apply member, inside entry member⟩
  · intro path found nonempty reached
    obtain ⟨entry, member, related⟩ := level.exists_destination nonempty reached
    refine ⟨entry, member, ?_⟩
    rcases related with ⟨rest, ends⟩ | beyond
    · by_cases arrived : rest = []
      · subst arrived
        rw [List.append_nil] at ends
        exact .inl (ends ▸ List.prefix_refl path)
      · -- Something stands further on, so what stands here is a map.
        have arrival := level.follow?_apply member
        rw [← ends] at arrival
        obtain ⟨entries, isMap⟩ := Value.exists_map_of_follow? arrival arrived
        rw [reached] at isMap
        exact .inr ⟨⟨rest, ends⟩, entries, Option.some.inj isMap⟩
    · exact .inl beyond

/-- A value whose levels are separate arrives as the rules for what is inside say. -/
theorem arrivesAs_applyInside {value : Value} {rules : Rules}
    (separate : SeparateInside rules value) :
    ArrivesAs rules value (applyInside rules value) := by
  induction value using Value.induction generalizing rules with
  | map entries ih =>
    rw [ArrivesAs, applyInside]
    by_cases unruled : rules.isEmpty
    · rw [if_pos unruled, if_pos unruled]
    · rw [if_neg unruled, if_neg unruled]
      rw [SeparateInside] at separate
      obtain ⟨level, within⟩ := separate.resolve_left unruled
      have inside := separateEntries_iff.mp within
      exact ⟨_, rfl, level.moves fun entry member => ih entry member (inside entry member)⟩
  | _ => rfl

/-- Renaming a mapping whose levels are separate moves every value to its destination, at every
level that the rules reach, and puts nothing anywhere else. -/
theorem moves_apply {rules : Rules} {data : Mapping} (level : rules.Separate data)
    (within : SeparateEntries rules data) : rules.Moves data (rules.apply data) := by
  have inside := separateEntries_iff.mp within
  exact level.moves fun entry member => arrivesAs_applyInside (inside entry member)

/-- Rules that move a value into the container of another key and rename both inside and out. -/
def relocating : Rules :=
  (((Rules.rename [] "city" "Home.City").rename "house" "Home.House").rename "house.no"
    "Number.Text").rename "note" "Remark"

/-- A mapping with a container that the rules reach and one that they do not. -/
def relocated : Mapping :=
  [("city", .text "Lyon"), ("house", .map [("no", .int 7), ("side", .text "left")]),
    ("rest", .map [("a.b", .null)])]

/-- Two entries share a container of the result, and a value inside one of them goes deeper. -/
theorem moves_apply_relocated :
    relocating.Separate relocated ∧ SeparateEntries relocating relocated ∧
      relocating.Moves relocated
        [("Home", .map [("City", .text "Lyon"),
          ("House", .map [("Number", .map [("Text", .int 7)]), ("side", .text "left")])]),
        ("rest", .map [("a.b", .null)])] := by
  have level : relocating.Separate relocated := by decide
  have within : SeparateEntries relocating relocated :=
    ⟨trivial, .inr ⟨by decide, trivial, trivial, trivial⟩, .inl rfl, trivial⟩
  exact ⟨level, within, moves_apply level within⟩

end Rules

end TypedRecord
