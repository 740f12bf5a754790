import TypedRecord.Decimal.Stepwise
import TypedRecord.Json.Parser
import TypedRecord.Value.Coercion

/-!
# JSON values

A tree is the meaning of a term by itself: numbers are sorted into natural numbers, negative
integers and others, and of several members with one key the last one counts. A value can be taken
from a term at once, from a tree by asking each number what it is, or from a tree by handing each
part over. The three agree.
-/
namespace TypedRecord

/-- A value of an unsigned integer: signed when it fits. -/
def Value.ofUInt64 (number : UInt64) : Value :=
  match int64? number.toNat with
  | some signed => .int signed
  | none => .uint number

namespace Json

/-- The number of a numeral, sorted by how it can be held. -/
inductive Number where
  /-- A natural number. -/
  | natural (number : UInt64)
  /-- An integer below zero. -/
  | negative (number : Int64)
  /-- Any other number. -/
  | real (number : Double)
deriving DecidableEq

namespace Number

/-- The number of a numeral. An integer in range is held exactly, except that minus zero is not an
integer; any other numeral is read in steps, and refused when that leads beyond the largest finite
number. -/
def ofNumeral? (numeral : Numeral) : Option Number :=
  let whole := numeral.whole
  if numeral.isInteger ∧ numeral.negative = false ∧ whole < 2 ^ 64 then
    some (.natural (UInt64.ofNat whole))
  else if numeral.isInteger ∧ numeral.negative ∧ whole ≠ 0 ∧ whole ≤ 2 ^ 63 then
    some (.negative (Int64.ofInt (-(whole : Int))))
  else
    let number := numeral.stepwise
    if number.isFinite then some (.real number) else none

/-- The number as a signed integer. -/
def asInt64? : Number → Option Int64
  | .natural number => int64? number.toNat
  | .negative number => some number
  | .real _ => none

/-- The number as an unsigned integer. -/
def asUInt64? : Number → Option UInt64
  | .natural number => some number
  | _ => none

/-- The number as a binary number. -/
def asDouble? : Number → Option Double
  | .natural number => some (Binary.ofInt number.toNat)
  | .negative number => some (Binary.ofInt number.toInt)
  | .real number => some number

/-- The value of a number, by asking what it can be held as. -/
def toValue (number : Number) : Value :=
  match number.asInt64?, number.asUInt64?, number.asDouble? with
  | some signed, _, _ => .int signed
  | none, some unsigned, _ => .uint unsigned
  | none, none, some datum => .float datum
  | none, none, none => .null

/-- The value of a number, by how it is held. -/
def read : Number → Value
  | .natural number => Value.ofUInt64 number
  | .negative number => .int number
  | .real number => .float number

end Number

/-- The meaning of a term. -/
inductive Tree where
  /-- Null. -/
  | null
  /-- A truth value. -/
  | bool (truth : Bool)
  /-- A number. -/
  | number (number : Number)
  /-- A text. -/
  | string (text : String)
  /-- Trees in order. -/
  | array (items : List Tree)
  /-- Trees under keys, in ascending order of the keys. -/
  | object (members : List (String × Tree))

/-- The number of arrays and objects that may stand one inside another. -/
def maxLevels : Nat := 127

namespace Term

mutual

/-- The tree of a term with at most `levels` containers one inside another. -/
def treeWithin? (levels : Nat) : Term → Option Tree
  | .null => some .null
  | .bool truth => some (.bool truth)
  | .number numeral => (Number.ofNumeral? numeral).map .number
  | .string pieces => (Piece.text? pieces).map .string
  | .array items => match levels with
    | 0 => none
    | levels + 1 => (treeItems? levels items).map .array
  | .object members => match levels with
    | 0 => none
    | levels + 1 =>
      (treeMembers? levels members).map fun members => .object (Entries.ofList members)

/-- The trees of items. -/
def treeItems? (levels : Nat) : List Term → Option (List Tree)
  | [] => some []
  | item :: rest => match item.treeWithin? levels, treeItems? levels rest with
    | some item, some rest => some (item :: rest)
    | _, _ => none

/-- The trees of members, with their keys. -/
def treeMembers? (levels : Nat) : List (List Piece × Term) → Option (List (String × Tree))
  | [] => some []
  | (key, item) :: rest =>
    match Piece.text? key, item.treeWithin? levels, treeMembers? levels rest with
    | some key, some item, some rest => some ((key, item) :: rest)
    | _, _, _ => none

end

mutual

/-- The value of a term with at most `levels` containers one inside another. -/
def valueWithin? (levels : Nat) : Term → Option Value
  | .null => some .null
  | .bool truth => some (.bool truth)
  | .number numeral => (Number.ofNumeral? numeral).map Number.read
  | .string pieces => (Piece.text? pieces).map .text
  | .array items => match levels with
    | 0 => none
    | levels + 1 => (valueItems? levels items).map .list
  | .object members => match levels with
    | 0 => none
    | levels + 1 =>
      (valueMembers? levels members).map fun members => .map (Entries.ofList members)

/-- The values of items. -/
def valueItems? (levels : Nat) : List Term → Option (List Value)
  | [] => some []
  | item :: rest => match item.valueWithin? levels, valueItems? levels rest with
    | some item, some rest => some (item :: rest)
    | _, _ => none

/-- The values of members, with their keys. -/
def valueMembers? (levels : Nat) : List (List Piece × Term) → Option (List (String × Value))
  | [] => some []
  | (key, item) :: rest =>
    match Piece.text? key, item.valueWithin? levels, valueMembers? levels rest with
    | some key, some item, some rest => some ((key, item) :: rest)
    | _, _, _ => none

end

/-- The tree of a term. -/
def tree? (term : Term) : Option Tree := term.treeWithin? maxLevels

/-- The value of a term. -/
def value? (term : Term) : Option Value := term.valueWithin? maxLevels

/-- The bytes of a term: those of a string, or those that an array lists. -/
def bytes? : Term → Option (List UInt8)
  | .string pieces => some (Piece.bytes pieces)
  | .array items => items.mapM fun item => match item with
    | .number numeral => match Number.ofNumeral? numeral with
      | some (.natural natural) => uint8? natural.toNat
      | _ => none
    | _ => none
  | _ => none

/-- The timestamp of a term that is an integer in range. -/
def timestamp? : Term → Option Timestamp
  | .number numeral => (Number.ofNumeral? numeral).bind fun held =>
    held.asInt64?.map fun millis => ⟨millis⟩
  | _ => none

end Term

namespace Tree

mutual

/-- The value of a tree, by asking each number what it can be held as. -/
def toValue : Tree → Value
  | .null => .null
  | .bool truth => .bool truth
  | .number held => held.toValue
  | .string text => .text text
  | .array items => .list (itemValues items)
  | .object members => .map (Entries.ofList (memberValues members))

/-- The values of items. -/
def itemValues : List Tree → List Value
  | [] => []
  | item :: rest => item.toValue :: itemValues rest

/-- The values of members, with their keys. -/
def memberValues : List (String × Tree) → List (String × Value)
  | [] => []
  | (key, item) :: rest => (key, item.toValue) :: memberValues rest

end

mutual

/-- The value of a tree, by handing each part over as it is held. -/
def read : Tree → Value
  | .null => .null
  | .bool truth => .bool truth
  | .number held => held.read
  | .string text => .text text
  | .array items => .list (readItems items)
  | .object members => .map (Entries.ofList (readMembers members))

/-- The values of items. -/
def readItems : List Tree → List Value
  | [] => []
  | item :: rest => item.read :: readItems rest

/-- The values of members, with their keys. -/
def readMembers : List (String × Tree) → List (String × Value)
  | [] => []
  | (key, item) :: rest => (key, item.read) :: readMembers rest

end

end Tree

end Json

end TypedRecord
