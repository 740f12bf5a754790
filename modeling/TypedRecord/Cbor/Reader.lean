import TypedRecord.Cbor.Head
import TypedRecord.Error
import TypedRecord.Json.Tree
import TypedRecord.Text.Utf8

/-!
# Reading CBOR

Reading is a machine over heads. Its state holds the containers that are still open, innermost
first, or the value that is complete. A map alternates between a key and a value; a key is a text,
or bytes that are UTF-8, and of two entries with one key the later one counts. Every container and
every tag takes one level, and so does the key of a tag. Reading the heads of one part and then of
another is one run.
-/
namespace TypedRecord.Cbor

/-- The number of containers and tags that may stand one inside another. -/
def maxLevels : Nat := 127

/-- The room one value of a list takes, in bytes. -/
def itemRoom : Nat := 32

/-- The most room a list can take, in bytes. -/
def maxRoom : Nat := 2 ^ 63 - 1

/-- The number of items for which room is made when an array is opened: as many as its head says,
and none when its end will be marked. -/
def reservation (length : Option Nat) : Nat := length.getD 0

namespace Reader

/-- A container that is still open, or a tag whose item is being read. -/
inductive Frame where
  /-- A list, with the number of items still to come unless its end will be marked. The items before
  the open place are reversed. -/
  | list (remaining : Option Nat) (before : List Value)
  /-- A map, with the number of entries still to come unless its end will be marked, and the key of
  the open entry once it is read. -/
  | map (remaining : Option Nat) (before : Mapping) (key : Option String)
  /-- A tag. -/
  | tag

/-- What the heads up to a place have opened or completed. -/
inductive State where
  /-- An item has to follow. -/
  | item (frames : List Frame)
  /-- A value is complete. -/
  | complete (value : Value)

/-- Whether the next item is the key of an entry, with any number of tags before it. -/
def atKey : List Frame → Bool
  | .tag :: frames => atKey frames
  | .map _ _ none :: _ => true
  | _ => false

/-- The number of items that are still to come after one of them. -/
def after : Option Nat → Option Nat := Option.map (· - 1)

/-- The state once a value is complete that is not a key. -/
def deliver (value : Value) : List Frame → State
  | [] => .complete value
  | .tag :: frames => deliver value frames
  | .list remaining before :: frames =>
    match after remaining with
    | some 0 => deliver (.list (value :: before).reverse) frames
    | remaining => .item (.list remaining (value :: before) :: frames)
  | .map remaining before (some key) :: frames =>
    let entries := Entries.insert before key value
    match after remaining with
    | some 0 => deliver (.map entries) frames
    | remaining => .item (.map remaining entries none :: frames)
  | .map remaining before none :: frames => .item (.map remaining before none :: frames)

/-- The state once the key of an entry is complete. -/
def deliverKey (key : String) : List Frame → State
  | .tag :: frames => deliverKey key frames
  | .map remaining before _ :: frames => .item (.map remaining before (some key) :: frames)
  | frames => .item frames

/-- The state after the head of a container, unless the containers nest too deep. -/
def opened (frames : List Frame) (state : State) : Except DecodeCause State :=
  if maxLevels ≤ frames.length then .error .malformed else .ok state

/-- The state after the head of an item whose place is that of a key. -/
def keyStep (frames : List Frame) : Head → Except DecodeCause State
  | .text content | .bytes content => match Utf8.decode? content with
    | some key => .ok (deliverKey key frames)
    | none => .error .malformed
  | .tag => opened frames (.item (.tag :: frames))
  | .stop => match frames with
    | .map none before none :: frames => .ok (deliver (.map before) frames)
    | _ => .error .malformed
  | _ => .error .malformed

/-- The state after the head of an item that is not a key. -/
def itemStep (frames : List Frame) : Head → Except DecodeCause State
  | .natural number => match uint64? number with
    | some number => .ok (deliver (Value.ofUInt64 number) frames)
    | none => .error .malformed
  | .negative number => match int64? (-1 - number) with
    | some number => .ok (deliver (.int number) frames)
    | none => .error .malformed
  | .bytes content => .ok (deliver (.blob content) frames)
  | .text content => match Utf8.decode? content with
    | some text => .ok (deliver (.text text) frames)
    | none => .error .malformed
  | .array length => do
    let state ← opened frames (match length with
      | some 0 => deliver (.list []) frames
      | length => .item (.list length [] :: frames))
    if reservation length * itemRoom ≤ maxRoom then .ok state else .error .reservation
  | .map length => opened frames (match length with
      | some 0 => deliver (.map []) frames
      | length => .item (.map length [] none :: frames))
  | .tag => opened frames (.item (.tag :: frames))
  | .bool truth => .ok (deliver (.bool truth) frames)
  | .null => .ok (deliver .null frames)
  | .float number => .ok (deliver (.float number) frames)
  | .stop => match frames with
    | .list none before :: frames => .ok (deliver (.list before.reverse) frames)
    | _ => .error .malformed
  | .malformed => .error .malformed

/-- The state after a head. Nothing may follow a complete value. -/
def step : State → Head → Except DecodeCause State
  | .item frames, head => if atKey frames then keyStep frames head else itemStep frames head
  | .complete _, _ => .error .malformed

/-- The state after a run of heads. -/
def run : State → List Head → Except DecodeCause State
  | state, [] => .ok state
  | state, head :: rest => match step state head with
    | .ok next => run next rest
    | .error cause => .error cause

end Reader

/-- The value that a run of bytes writes. -/
def decode (bytes : List UInt8) : Except DecodeCause Value :=
  match Reader.run (.item []) (Head.ofBytes bytes) with
  | .ok (.complete value) => .ok value
  | .ok (.item _) => .error .malformed
  | .error cause => .error cause

end TypedRecord.Cbor
