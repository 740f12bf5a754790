import TypedRecord.Codec
import TypedRecord.Proofs.Entries
import TypedRecord.Proofs.Integers

/-!
# The normal form of a value

A format does not tell every two values apart: a timestamp is written as its count, a small
unsigned integer as a signed one would be, and JSON writes a blob as the list of its bytes. The
normal form of a value is the one of those written alike that a reader gives back. It is written
like the value and is its own normal form.
-/
namespace TypedRecord

namespace Value

/-- A value that is null is the null. -/
theorem eq_null_of_isNull {value : Value} (null : value.isNull = true) : value = .null := by
  cases value with
  | null => rfl
  | _ => simp [isNull] at null

/-- An item is smaller than its list. -/
theorem sizeOf_item_lt {items : List Value} {item : Value} (member : item ∈ items) :
    sizeOf item < sizeOf (Value.list items) := by
  have smaller := List.sizeOf_lt_of_mem member
  rw [Value.list.sizeOf_spec]
  omega

/-- The value of an entry is smaller than its map. -/
theorem sizeOf_entry_lt {entries : Mapping} {entry : String × Value} (member : entry ∈ entries) :
    sizeOf entry.2 < sizeOf (Value.map entries) := by
  have smaller := Entries.sizeOf_snd_lt member
  rw [Value.map.sizeOf_spec]
  omega

/-- Induction over a value, with the claim for every item of a list and every value of a map. -/
@[elab_as_elim] theorem induction {motive : Value → Prop} (null : motive .null)
    (bool : ∀ truth, motive (.bool truth)) (int : ∀ number, motive (.int number))
    (uint : ∀ number, motive (.uint number)) (float : ∀ number, motive (.float number))
    (text : ∀ content, motive (.text content)) (blob : ∀ bytes, motive (.blob bytes))
    (timestamp : ∀ time, motive (.timestamp time))
    (list : ∀ items, (∀ item ∈ items, motive item) → motive (.list items))
    (map : ∀ entries : Mapping, (∀ entry ∈ entries, motive entry.2) → motive (.map entries))
    (value : Value) : motive value :=
  match value with
  | .null => null
  | .bool truth => bool truth
  | .int number => int number
  | .uint number => uint number
  | .float number => float number
  | .text content => text content
  | .blob bytes => blob bytes
  | .timestamp time => timestamp time
  | .list items => list items fun item _ =>
    induction null bool int uint float text blob timestamp list map item
  | .map entries => map entries fun entry _ =>
    induction null bool int uint float text blob timestamp list map entry.2
termination_by sizeOf value
decreasing_by
  · next member => exact sizeOf_item_lt member
  · next member => exact sizeOf_entry_lt member

/-! ### The normal form -/

mutual

/-- The value that a reader of a format gives back for what a value is written as. -/
def normal (format : WireFormat) : Value → Value
  | .null => .null
  | .bool truth => .bool truth
  | .int number => .int number
  | .uint number =>
    if number.toNat < 2 ^ 63 then .int (Int64.ofInt number.toNat) else .uint number
  | .float number => .float number
  | .text content => .text content
  | .blob bytes => match format with
    | .json => .list (bytes.map fun byte => .int (Int64.ofInt byte.toNat))
    | .cbor => .blob bytes
  | .timestamp time => .int time.millis
  | .list items => .list (normalItems format items)
  | .map entries => .map (normalEntries format entries)

/-- The normal forms of items. -/
def normalItems (format : WireFormat) : List Value → List Value
  | [] => []
  | item :: rest => item.normal format :: normalItems format rest

/-- The entries with the normal forms of their values. -/
def normalEntries (format : WireFormat) : List (String × Value) → List (String × Value)
  | [] => []
  | (key, value) :: rest => (key, value.normal format) :: normalEntries format rest

end

variable {format : WireFormat}

/-- The items change one by one. -/
theorem normalItems_eq_map (items : List Value) :
    normalItems format items = items.map (normal format) := by
  induction items with
  | nil => rfl
  | cons item rest ih => rw [normalItems, ih, List.map_cons]

/-- The values change under their keys. -/
theorem normalEntries_eq_mapValues (entries : Mapping) :
    normalEntries format entries = Entries.mapValues (normal format) entries := by
  induction entries with
  | nil => rfl
  | cons entry rest ih => simp only [normalEntries, ih, Entries.mapValues, List.map_cons]

/-- The normal form of a list. -/
theorem normal_list (items : List Value) :
    (Value.list items).normal format = .list (items.map (normal format)) := by
  rw [normal, normalItems_eq_map]

/-- The normal form of a map. -/
theorem normal_map (entries : Mapping) :
    (Value.map entries).normal format = .map (Entries.mapValues (normal format) entries) := by
  rw [normal, normalEntries_eq_mapValues]

/-- Unsigned integers are read as what their normal form says. -/
theorem ofUInt64_eq_normal (number : UInt64) :
    Value.ofUInt64 number = (Value.uint number).normal format := by
  by_cases small : number.toNat < 2 ^ 63
  · have signed := @int64?_eq_some number.toNat (by omega) (by omega)
    rw [Value.ofUInt64, signed, normal, if_pos small]
  · have unsigned := @int64?_eq_none number.toNat (by omega)
    rw [Value.ofUInt64, unsigned, normal, if_neg small]

/-- A natural number that is a signed integer is read as one. -/
theorem ofUInt64_ofNat {number : Int64} (positive : 0 ≤ number.toInt) :
    Value.ofUInt64 (UInt64.ofNat number.toInt.toNat) = .int number := by
  have high := number.toInt_lt
  have unsigned : (UInt64.ofNat number.toInt.toNat).toNat = number.toInt.toNat :=
    UInt64.toNat_ofNat_of_lt' (by rw [UInt64.size]; omega)
  rw [Value.ofUInt64, unsigned, Int.toNat_of_nonneg positive, int64?_toInt]

/-- A normal form is its own normal form. -/
theorem normal_normal (value : Value) :
    (value.normal format).normal format = value.normal format := by
  induction value using Value.induction with
  | null | bool _ | int _ | float _ | text _ | timestamp _ => simp only [normal]
  | uint number =>
    rw [normal]
    split
    · rw [normal]
    · next large => rw [normal, if_neg large]
  | blob bytes =>
    cases format with
    | cbor => rw [normal, normal]
    | json =>
      rw [normal, normal_list, List.map_map]
      rfl
  | list items ih =>
    rw [normal_list, normal_list, List.map_map]
    congr 1
    exact List.map_congr_left ih
  | map entries ih =>
    rw [normal_map, normal_map]
    congr 1
    rw [Entries.mapValues, Entries.mapValues, List.map_map]
    exact List.map_congr_left fun entry member => by rw [Function.comp_apply, ih entry member]

/-! ### Levels -/

mutual

/-- The number of lists and maps that stand one inside another in the document of a value. A blob is
a list of a JSON document. -/
def levels (format : WireFormat) : Value → Nat
  | .list items => levelsItems format items + 1
  | .map entries => levelsEntries format entries + 1
  | .blob _ => match format with
    | .json => 1
    | .cbor => 0
  | _ => 0

/-- The most levels of an item. -/
def levelsItems (format : WireFormat) : List Value → Nat
  | [] => 0
  | item :: rest => max (item.levels format) (levelsItems format rest)

/-- The most levels of an entry. -/
def levelsEntries (format : WireFormat) : List (String × Value) → Nat
  | [] => 0
  | (_, value) :: rest => max (value.levels format) (levelsEntries format rest)

end

/-- A list holds no item of more levels than its most. -/
theorem levelsItems_le_iff {items : List Value} {bound : Nat} :
    levelsItems format items ≤ bound ↔ ∀ item ∈ items, item.levels format ≤ bound := by
  induction items with
  | nil => simp [levelsItems]
  | cons item rest ih => simp [levelsItems, ih]

/-- A map holds no value of more levels than its most. -/
theorem levelsEntries_le_iff {entries : Mapping} {bound : Nat} :
    levelsEntries format entries ≤ bound ↔ ∀ entry ∈ entries, entry.2.levels format ≤ bound := by
  induction entries with
  | nil => simp [levelsEntries]
  | cons entry rest ih => simp [levelsEntries, ih]

mutual

/-- A CBOR document nests as deep as its value. -/
theorem levels_cbor : ∀ value : Value, value.levels .cbor = value.depth
  | .list items => by rw [levels, depth, levelsItems_cbor items]
  | .map entries => by rw [levels, depth, levelsEntries_cbor entries]
  | .null | .bool _ | .int _ | .uint _ | .float _ | .text _ | .blob _ | .timestamp _ => rfl

/-- The items of a CBOR document nest as deep as they do. -/
theorem levelsItems_cbor : ∀ items : List Value, levelsItems .cbor items = depthItems items
  | [] => rfl
  | item :: rest => by rw [levelsItems, depthItems, levels_cbor item, levelsItems_cbor rest]

/-- The entries of a CBOR document nest as deep as they do. -/
theorem levelsEntries_cbor : ∀ entries : Mapping, levelsEntries .cbor entries = depthEntries entries
  | [] => rfl
  | (_, value) :: rest => by
    rw [levelsEntries, depthEntries, levels_cbor value, levelsEntries_cbor rest]

end

/-! ### Room -/

mutual

/-- Whether every run of bytes and every list inside the value fits into the room that can be
addressed, as whatever a program holds does. -/
def Addressable : Value → Prop
  | .text content => (Utf8.encode content).length ≤ Cbor.maxRoom
  | .blob bytes => bytes.length ≤ Cbor.maxRoom
  | .list items => items.length * Cbor.itemRoom ≤ Cbor.maxRoom ∧ AddressableItems items
  | .map entries => entries.length ≤ Cbor.maxRoom ∧ AddressableEntries entries
  | _ => True

/-- Whether every item is addressable. -/
def AddressableItems : List Value → Prop
  | [] => True
  | item :: rest => item.Addressable ∧ AddressableItems rest

/-- Whether every key and every value is addressable. -/
def AddressableEntries : List (String × Value) → Prop
  | [] => True
  | (key, value) :: rest =>
    (Utf8.encode key).length ≤ Cbor.maxRoom ∧ value.Addressable ∧ AddressableEntries rest

end

/-- A list of addressable items. -/
theorem addressableItems_iff {items : List Value} :
    AddressableItems items ↔ ∀ item ∈ items, item.Addressable := by
  induction items with
  | nil => simp [AddressableItems]
  | cons item rest ih => simp [AddressableItems, ih]

/-- A map of addressable keys and values. -/
theorem addressableEntries_iff {entries : Mapping} :
    AddressableEntries entries ↔ ∀ entry ∈ entries,
      (Utf8.encode entry.1).length ≤ Cbor.maxRoom ∧ entry.2.Addressable := by
  induction entries with
  | nil => simp [AddressableEntries]
  | cons entry rest ih => simp [AddressableEntries, ih, and_assoc]

/-- A list of sorted items. -/
theorem sortedItems_iff {items : List Value} :
    SortedItems items ↔ ∀ item ∈ items, item.Sorted := by
  induction items with
  | nil => simp [SortedItems]
  | cons item rest ih => simp [SortedItems, ih]

/-- A map of sorted values. -/
theorem sortedEntries_iff {entries : Mapping} :
    SortedEntries entries ↔ ∀ entry ∈ entries, entry.2.Sorted := by
  induction entries with
  | nil => simp [SortedEntries]
  | cons entry rest ih => simp [SortedEntries, ih]

/-- What holds of every value that a program holds: its maps are sorted, and it fits into the room
that can be addressed. -/
structure InMemory (value : Value) : Prop where
  /-- The keys of every map are in strictly ascending order. -/
  sorted : value.Sorted
  /-- Every part has room. -/
  addressable : value.Addressable

/-- An item of a list in memory is in memory. -/
theorem InMemory.item {items : List Value} (held : (Value.list items).InMemory) {item : Value}
    (member : item ∈ items) : item.InMemory :=
  ⟨sortedItems_iff.mp held.sorted item member,
    addressableItems_iff.mp held.addressable.2 item member⟩

/-- The value of an entry of a map in memory is in memory. -/
theorem InMemory.entry {entries : Mapping} (held : (Value.map entries).InMemory)
    {entry : String × Value} (member : entry ∈ entries) : entry.2.InMemory :=
  ⟨sortedEntries_iff.mp held.sorted.2 entry member,
    (addressableEntries_iff.mp held.addressable.2 entry member).2⟩

/-! ### Parts -/

/-- A value is a part of itself, of the lists around it and of the maps around it. -/
inductive Part : Value → Value → Prop where
  /-- The value itself. -/
  | self (value : Value) : Part value value
  /-- A part of an item. -/
  | item {part item : Value} {items : List Value} (member : item ∈ items)
    (inner : Part part item) : Part part (.list items)
  /-- A part of the value of an entry. -/
  | entry {part : Value} {entry : String × Value} {entries : Mapping} (member : entry ∈ entries)
    (inner : Part part entry.2) : Part part (.map entries)

end Value

end TypedRecord
