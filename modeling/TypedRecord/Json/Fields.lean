import TypedRecord.Entries
import TypedRecord.Json.Tree

/-!
# Structures in JSON

A structure with named fields is an object, or an array of its first fields in order. A field that
is named twice is an error, and so are more items than fields. A member that names no field is
skipped, whatever it holds, and a field that is not there has its default.
-/
namespace TypedRecord.Json.Term

/-- The fields of a structure with the terms that are given for them. -/
def fields? (names : List String) : Term → Option (List (String × Term))
  | .array items => if items.length ≤ names.length then some (names.zip items) else none
  | .object members => do
    let members ← members.mapM fun member => (Piece.text? member.1).map fun key => (key, member.2)
    let known := members.filter fun member => names.contains member.1
    let unknown := members.filter fun member => !names.contains member.1
    if (Entries.keys known).Nodup ∧ unknown.all fun member => member.2.isSkippable then some known
    else none
  | _ => none

/-- The data of a field, or its default. -/
def field? {α : Type} (fields : List (String × Term)) (name : String) (read : Term → Option α)
    (default : α) : Option α :=
  match Entries.find? fields name with
  | none => some default
  | some term => read term

/-- A natural number that fits 64 bits. -/
def natural? : Term → Option Nat
  | .number numeral => match Number.ofNumeral? numeral with
    | some (.natural held) => some held.toNat
    | _ => none
  | _ => none

/-- A truth value. -/
def truth? : Term → Option Bool
  | .bool truth => some truth
  | _ => none

/-- An array of texts. -/
def texts? : Term → Option (List String)
  | .array items => items.mapM fun item => match item with
    | .string pieces => Piece.text? pieces
    | _ => none
  | _ => none

end TypedRecord.Json.Term
