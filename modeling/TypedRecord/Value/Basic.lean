import TypedRecord.Binary.Basic
import TypedRecord.Entries
import TypedRecord.Time.Timestamp

/-!
# Dynamic values

A value is what configuration trees, request data and decoded documents hold before their types are
known. A mapping is a value's map: entries in ascending order of their keys. Null says that a key is
present and carries nothing.
-/
namespace TypedRecord

/-- A value whose type is known only by looking at it. -/
inductive Value where
  /-- No value. -/
  | null
  /-- A truth value. -/
  | bool (truth : Bool)
  /-- A signed integer. -/
  | int (number : Int64)
  /-- An unsigned integer. -/
  | uint (number : UInt64)
  /-- A binary number. -/
  | float (number : Double)
  /-- A text. -/
  | text (content : String)
  /-- A run of bytes. -/
  | blob (bytes : List UInt8)
  /-- A point in time. -/
  | timestamp (time : Timestamp)
  /-- Values in order. -/
  | list (items : List Value)
  /-- Values under text keys, in ascending order of the keys. -/
  | map (entries : List (String × Value))

instance : Inhabited Value := ⟨.null⟩

/-- Values under text keys. -/
abbrev Mapping := Entries Value

namespace Value

/-- The short name of what a value is. -/
def typeName : Value → String
  | .null => "null"
  | .bool _ => "bool"
  | .int _ => "int"
  | .uint _ => "uint"
  | .float _ => "float"
  | .text _ => "text"
  | .blob _ => "blob"
  | .timestamp _ => "timestamp"
  | .list _ => "list"
  | .map _ => "map"

/-- Whether the value is null. -/
def isNull : Value → Bool
  | .null => true
  | _ => false

/-- The text of a text value. -/
def asText? : Value → Option String
  | .text content => some content
  | _ => none

/-- The entries of a map value. -/
def asMap? : Value → Option Mapping
  | .map entries => some entries
  | _ => none

/-- The items of a list value. -/
def asList? : Value → Option (List Value)
  | .list items => some items
  | _ => none

/-- A list of texts. -/
def texts (items : List String) : Value := .list (items.map .text)

/-- A list of maps. -/
def maps (items : List Mapping) : Value := .list (items.map .map)

mutual

/-- Every map inside the value has its keys in strictly ascending order. -/
def Sorted : Value → Prop
  | .list items => SortedItems items
  | .map entries => Entries.Sorted entries ∧ SortedEntries entries
  | _ => True

/-- Every value of a list is sorted. -/
def SortedItems : List Value → Prop
  | [] => True
  | item :: rest => item.Sorted ∧ SortedItems rest

/-- Every value of a map is sorted. -/
def SortedEntries : List (String × Value) → Prop
  | [] => True
  | (_, value) :: rest => value.Sorted ∧ SortedEntries rest

end

mutual

/-- The number of lists and maps nested one inside another. -/
def depth : Value → Nat
  | .list items => depthItems items + 1
  | .map entries => depthEntries entries + 1
  | _ => 0

/-- The largest depth in a list. -/
def depthItems : List Value → Nat
  | [] => 0
  | item :: rest => max item.depth (depthItems rest)

/-- The largest depth in a map. -/
def depthEntries : List (String × Value) → Nat
  | [] => 0
  | (_, value) :: rest => max value.depth (depthEntries rest)

end

mutual

/-- Whether two values are equal as numbers are: a value that holds something that is not a number
is not equal to itself, and the two zeros are equal. -/
def sameAs : Value → Value → Bool
  | .null, .null => true
  | .bool first, .bool second => first == second
  | .int first, .int second => first == second
  | .uint first, .uint second => first == second
  | .float first, .float second => first.sameNumber second
  | .text first, .text second => first == second
  | .blob first, .blob second => first == second
  | .timestamp first, .timestamp second => first == second
  | .list first, .list second => sameItems first second
  | .map first, .map second => sameEntries first second
  | _, _ => false

/-- Whether two lists have equal values at every place. -/
def sameItems : List Value → List Value → Bool
  | [], [] => true
  | first :: firsts, second :: seconds => first.sameAs second && sameItems firsts seconds
  | _, _ => false

/-- Whether two maps have equal values under the same keys. -/
def sameEntries : List (String × Value) → List (String × Value) → Bool
  | [], [] => true
  | (key, first) :: firsts, (key', second) :: seconds =>
    key == key' && first.sameAs second && sameEntries firsts seconds
  | _, _ => false

end

end Value

namespace Mapping

/-- The value under a key unless it is null: an absent key and a null are alike. -/
def present? (mapping : Mapping) (key : String) : Option Value :=
  match Entries.find? mapping key with
  | some .null => none
  | found => found

/-- The text under a key. -/
def text? (mapping : Mapping) (key : String) : Option String :=
  (Entries.find? mapping key).bind Value.asText?

/-- The entries of the map under a key. -/
def map? (mapping : Mapping) (key : String) : Option Mapping :=
  (Entries.find? mapping key).bind Value.asMap?

/-- The items of the list under a key. -/
def list? (mapping : Mapping) (key : String) : Option (List Value) :=
  (Entries.find? mapping key).bind Value.asList?

/-- Whether a mapping is rebuilt from its own entries, as `Value.sameAs` compares. -/
def rebuilds (mapping : Mapping) : Bool :=
  Value.sameEntries (Entries.ofList mapping) mapping

end Mapping

end TypedRecord
