import TypedRecord.Cbor.Reader

/-!
# The steps of the CBOR reader

A head does one of seven things in a place that wants an item: it is the key of an entry, it is a
value by itself, it opens an array, a map or a tag, or it ends a list or a map. What a run preserves
is shown by these seven cases and never by what the reader looks at to tell them apart.
-/
namespace TypedRecord.Cbor

namespace Head

/-- The key that a head is. -/
def key? : Head → Option String
  | .text content | .bytes content => Utf8.decode? content
  | _ => none

/-- The value that a head is by itself. -/
def value? : Head → Option Value
  | .natural number => (uint64? number).map Value.ofUInt64
  | .negative number => (int64? (-1 - number)).map .int
  | .bytes content => some (.blob content)
  | .text content => (Utf8.decode? content).map .text
  | .bool truth => some (.bool truth)
  | .null => some .null
  | .float number => some (.float number)
  | _ => none

end Head

namespace Reader

/-- What a head does in a place that wants an item, and the state after it. -/
inductive Step : List Frame → Head → State → Prop where
  /-- The head is the key of an entry. -/
  | key {frames : List Frame} {head : Head} {name : String} (place : atKey frames = true)
    (found : head.key? = some name) : Step frames head (deliverKey name frames)
  /-- The head is a value by itself. -/
  | value {frames : List Frame} {head : Head} {value : Value} (place : atKey frames = false)
    (found : head.value? = some value) : Step frames head (deliver value frames)
  /-- The head opens an array, for whose items there is room. -/
  | array {frames : List Frame} {length : Option Nat} (place : atKey frames = false)
    (shallow : frames.length < maxLevels) (room : reservation length * itemRoom ≤ maxRoom) :
    Step frames (.array length) (if length = some 0 then deliver (.list []) frames
      else .item (.list length [] :: frames))
  /-- The head opens a map. -/
  | map {frames : List Frame} {length : Option Nat} (place : atKey frames = false)
    (shallow : frames.length < maxLevels) :
    Step frames (.map length) (if length = some 0 then deliver (.map []) frames
      else .item (.map length [] none :: frames))
  /-- The head opens a tag. -/
  | tag {frames : List Frame} (shallow : frames.length < maxLevels) :
    Step frames .tag (.item (.tag :: frames))
  /-- The head ends a list. -/
  | endList {frames : List Frame} {before : List Value} :
    Step (.list none before :: frames) .stop (deliver (.list before.reverse) frames)
  /-- The head ends a map. -/
  | endMap {frames : List Frame} {before : Mapping} :
    Step (.map none before none :: frames) .stop (deliver (.map before) frames)

/-- A container without items is complete at once. -/
theorem complete_or_open (length : Option Nat) (empty : State) (further : Option Nat → State) :
    (match length with
      | some 0 => empty
      | length => further length) = if length = some 0 then empty else further length := by
  split
  · rfl
  · next others => rw [if_neg fun none => others none]

/-- The step over the head of an array looks at the levels first and at the room afterwards. -/
theorem itemStep_array_eq (frames : List Frame) (length : Option Nat) :
    itemStep frames (.array length) =
      if maxLevels ≤ frames.length then .error .malformed
      else if reservation length * itemRoom ≤ maxRoom then
        .ok (if length = some 0 then deliver (.list []) frames
          else .item (.list length [] :: frames))
      else .error .reservation := by
  have checked : itemStep frames (.array length) =
      (opened frames (if length = some 0 then deliver (.list []) frames
        else .item (.list length [] :: frames))).bind fun state =>
          if reservation length * itemRoom ≤ maxRoom then .ok state else .error .reservation := by
    rw [← complete_or_open length (deliver (.list []) frames) fun length =>
      .item (.list length [] :: frames)]
    rfl
  rw [checked, opened]
  split <;> rfl

/-- The step over the head of a map looks at the levels. -/
theorem itemStep_map_eq (frames : List Frame) (length : Option Nat) :
    itemStep frames (.map length) = opened frames (if length = some 0 then deliver (.map []) frames
      else .item (.map length [] none :: frames)) := by
  rw [← complete_or_open length (deliver (.map []) frames) fun length =>
    .item (.map length [] none :: frames)]
  rfl

/-- A frame is opened when there are not too many of them. -/
theorem opened_eq_ok {frames : List Frame} {inner next : State}
    (opened : opened frames inner = .ok next) : frames.length < maxLevels ∧ inner = next := by
  rw [Reader.opened] at opened
  split at opened
  · cases opened
  · next shallow => exact ⟨Nat.lt_of_not_le shallow, Except.ok.inj opened⟩

/-- A step over a key is one of the steps. -/
theorem Step.of_keyStep {frames : List Frame} {head : Head} {next : State}
    (place : atKey frames = true) (stepped : keyStep frames head = .ok next) :
    Step frames head next := by
  cases head with
  | text content | bytes content =>
    simp only [keyStep] at stepped
    split at stepped
    · next found =>
      cases stepped
      exact .key place found
    · cases stepped
  | tag =>
    obtain ⟨shallow, rfl⟩ := opened_eq_ok stepped
    exact .tag shallow
  | stop =>
    simp only [keyStep] at stepped
    split at stepped
    · cases stepped
      exact .endMap
    · cases stepped
  | _ => cases stepped

/-- A step over an item is one of the steps. -/
theorem Step.of_itemStep {frames : List Frame} {head : Head} {next : State}
    (place : atKey frames = false) (stepped : itemStep frames head = .ok next) :
    Step frames head next := by
  cases head with
  | bytes _ | bool _ | null | float _ =>
    cases stepped
    exact .value place rfl
  | natural _ | negative _ | text _ =>
    simp only [itemStep] at stepped
    split at stepped
    · next found =>
      cases stepped
      exact .value place (congrArg (Option.map _) found)
    · cases stepped
  | array length =>
    rw [itemStep_array_eq] at stepped
    split at stepped
    · cases stepped
    · next deep =>
      split at stepped
      · next room =>
        cases stepped
        exact .array place (Nat.lt_of_not_le deep) room
      · cases stepped
  | map length =>
    rw [itemStep_map_eq] at stepped
    obtain ⟨shallow, rfl⟩ := opened_eq_ok stepped
    exact .map place shallow
  | tag =>
    obtain ⟨shallow, rfl⟩ := opened_eq_ok stepped
    exact .tag shallow
  | stop =>
    simp only [itemStep] at stepped
    split at stepped
    · cases stepped
      exact .endList
    · cases stepped
  | malformed => cases stepped

/-- A step from a place that wants an item is one of the steps. -/
theorem Step.of_step {frames : List Frame} {head : Head} {next : State}
    (stepped : step (.item frames) head = .ok next) : Step frames head next := by
  rw [step] at stepped
  split at stepped
  · next place => exact .of_keyStep place stepped
  · next place => exact .of_itemStep (by simpa using place) stepped

end Reader

end TypedRecord.Cbor
