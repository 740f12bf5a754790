import TypedRecord.Decimal.Shortest
import TypedRecord.Json.Parser
import TypedRecord.Value.Basic

/-!
# Values as JSON

A value is written as the plain document it describes. Bytes become the array of their numbers, a
timestamp the count of its milliseconds, and a number that is not finite null, since JSON has no
other way to say it; a codec that must not lose it looks for it first.
-/
namespace TypedRecord

namespace Json

/-- Numbers from 0.00001 to below ten to the sixteenth have no power of ten. -/
def numberLayout : NumberLayout := ⟨-5, 15⟩

/-- The term of a binary number. -/
def Term.ofDouble (number : Double) : Term :=
  match number.numeral? numberLayout with
  | some numeral => .number numeral
  | none => .null

/-- The term of bytes. -/
def Term.ofBytes (bytes : List UInt8) : Term := .array (bytes.map fun byte => .ofInt byte.toNat)

end Json

namespace Value

open Json (Term Piece)

mutual

/-- The term of a value. -/
def toTerm : Value → Term
  | .null => .null
  | .bool truth => .bool truth
  | .int number => .ofInt number.toInt
  | .uint number => .ofInt number.toNat
  | .float number => .ofDouble number
  | .text content => .string (Piece.ofText content)
  | .blob bytes => .ofBytes bytes
  | .timestamp time => .ofInt time.millis.toInt
  | .list items => .array (itemTerms items)
  | .map entries => .object (entryTerms entries)

/-- The terms of a list. -/
def itemTerms : List Value → List Term
  | [] => []
  | item :: rest => item.toTerm :: itemTerms rest

/-- The members of a map. -/
def entryTerms : List (String × Value) → List (List Piece × Term)
  | [] => []
  | (key, value) :: rest => (Piece.ofText key, value.toTerm) :: entryTerms rest

end

mutual

/-- The first number inside a value that is not finite. -/
def firstNonFinite? : Value → Option Double
  | .float number => if number.isFinite then none else some number
  | .list items => firstNonFiniteItem? items
  | .map entries => firstNonFiniteMember? entries
  | _ => none

/-- The first number inside a list that is not finite. -/
def firstNonFiniteItem? : List Value → Option Double
  | [] => none
  | item :: rest => item.firstNonFinite?.or (firstNonFiniteItem? rest)

/-- The first number inside a map that is not finite. -/
def firstNonFiniteMember? : List (String × Value) → Option Double
  | [] => none
  | (_, value) :: rest => value.firstNonFinite?.or (firstNonFiniteMember? rest)

end

end Value

end TypedRecord
