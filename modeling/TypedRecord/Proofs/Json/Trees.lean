import TypedRecord.Codec
import TypedRecord.Proofs.Entries
import TypedRecord.Proofs.Json.Terms

/-!
# Three ways to read JSON

A value is taken from a text at once, from the tree of the text by asking each number what it can be
held as, or from the tree by handing each part over. The last two make the same value of every tree,
and the tree of a text makes the value that is taken at once, since of members with one key the last
counts whether they are sorted before or after their values are made. Main statement: a text that a
codec agrees to decode is a mapping, another value or no document to both readers alike.
-/
namespace TypedRecord

open Entries

namespace Json

/-- A number is the same value whether it is asked what it can be held as or handed over. -/
theorem Number.toValue_eq_read (number : Number) : number.toValue = number.read := by
  cases number with
  | natural unsigned =>
    cases fits : int64? unsigned.toNat with
    | none => simp only [toValue, asInt64?, asUInt64?, read, Value.ofUInt64, fits]
    | some signed => simp only [toValue, asInt64?, read, Value.ofUInt64, fits]
  | negative signed => rfl
  | real datum => rfl

namespace Tree

mutual

/-- A tree is the same value whether its numbers are asked or its parts are handed over. -/
theorem toValue_eq_read : ∀ tree : Tree, tree.toValue = tree.read
  | .null | .bool _ | .string _ => rfl
  | .number held => held.toValue_eq_read
  | .array items => by rw [toValue, read, itemValues_eq_readItems items]
  | .object members => by rw [toValue, read, memberValues_eq_readMembers members]

/-- The items of a tree are the same values either way. -/
theorem itemValues_eq_readItems : ∀ items : List Tree, itemValues items = readItems items
  | [] => rfl
  | item :: rest => by
    rw [itemValues, readItems, toValue_eq_read item, itemValues_eq_readItems rest]

/-- The members of a tree are the same values either way. -/
theorem memberValues_eq_readMembers :
    ∀ members : List (String × Tree), memberValues members = readMembers members
  | [] => rfl
  | (_, item) :: rest => by
    rw [memberValues, readMembers, toValue_eq_read item, memberValues_eq_readMembers rest]

end

/-- The values of members, one by one. -/
theorem memberValues_eq_mapValues (members : List (String × Tree)) :
    memberValues members = mapValues toValue members := by
  induction members with
  | nil => rfl
  | cons member rest ih => simp only [memberValues, ih, mapValues, List.map_cons]

/-- An object of members is the map of their values. -/
theorem toValue_object_ofList (members : List (String × Tree)) :
    (object (ofList members)).toValue = .map (ofList (memberValues members)) := by
  rw [toValue, memberValues_eq_mapValues, memberValues_eq_mapValues, mapValues_ofList,
    (sorted_ofList _).ofList_self]

end Tree

namespace Term

mutual

/-- The value of a term is that of its tree. -/
theorem valueWithin?_eq (levels : Nat) : ∀ term : Term,
    term.valueWithin? levels = (term.treeWithin? levels).map Tree.toValue
  | .null | .bool _ => rfl
  | .number numeral => by
    rw [valueWithin?, treeWithin?, Option.map_map]
    exact congrArg (fun read => (Number.ofNumeral? numeral).map read)
      (funext fun held => held.toValue_eq_read.symm)
  | .string pieces => by
    rw [valueWithin?, treeWithin?, Option.map_map]
    rfl
  | .array items => by
    cases levels with
    | zero => rfl
    | succ levels =>
      rw [valueWithin?, treeWithin?, valueItems?_eq levels items, Option.map_map, Option.map_map]
      rfl
  | .object members => by
    cases levels with
    | zero => rfl
    | succ levels =>
      rw [valueWithin?, treeWithin?, valueMembers?_eq levels members, Option.map_map,
        Option.map_map]
      exact congrArg (fun make => (treeMembers? levels members).map make)
        (funext fun read => (Tree.toValue_object_ofList read).symm)

/-- The values of items are those of their trees. -/
theorem valueItems?_eq (levels : Nat) : ∀ items : List Term,
    valueItems? levels items = (treeItems? levels items).map Tree.itemValues
  | [] => rfl
  | item :: rest => by
    rw [valueItems?, treeItems?, valueWithin?_eq levels item, valueItems?_eq levels rest]
    cases item.treeWithin? levels <;> cases treeItems? levels rest <;> rfl

/-- The values of members are those of their trees. -/
theorem valueMembers?_eq (levels : Nat) : ∀ members : List (List Piece × Term),
    valueMembers? levels members = (treeMembers? levels members).map Tree.memberValues
  | [] => rfl
  | (key, item) :: rest => by
    rw [valueMembers?, treeMembers?, valueWithin?_eq levels item, valueMembers?_eq levels rest]
    cases Piece.text? key <;> cases item.treeWithin? levels <;>
      cases treeMembers? levels rest <;> rfl

end

end Term

end Json

namespace Codec

/-- What a codec makes of a text that it agrees to decode is what the tree of the text means. -/
theorem decode_encode_text {maxBytes : Nat} {text : String}
    (fits : (Utf8.encode text).length ≤ maxBytes) :
    (Codec.mk .json maxBytes).decode (Utf8.encode text) =
      match (Json.Term.parse? text).bind Json.Term.tree? with
      | some tree => .ok tree.toValue
      | none => .error (.decode .malformed) := by
  have values : (Json.Term.parse? text).bind Json.Term.value? =
      ((Json.Term.parse? text).bind Json.Term.tree?).map Json.Tree.toValue := by
    rw [Option.map_bind]
    exact congrArg (Option.bind _) (funext fun term => Json.Term.valueWithin?_eq _ term)
  rw [decode, if_neg (Nat.not_lt_of_le fits), WireFormat.decode, WireFormat.decodeJson,
    Utf8.decode?_encode, Option.bind_some, values]
  cases (Json.Term.parse? text).bind Json.Term.tree? <;> rfl

/-- A JSON text that a codec agrees to decode is read as a mapping exactly when the codec decodes it
to that mapping, is refused with the name of what it is exactly when the codec decodes it to a value
of that name that is no mapping, and is no document exactly when it is malformed to the codec. Every
tree of a text is the same value whether its numbers are asked what they can be held as or its parts
are handed over as they are held. -/
theorem ofJson_iff_decode (maxBytes : Nat) (text : String)
    (fits : (Utf8.encode text).length ≤ maxBytes) :
    (∀ mapping, Mapping.ofJson text = .ok mapping ↔
      (Codec.mk .json maxBytes).decode (Utf8.encode text) = .ok (.map mapping)) ∧
    (∀ found, Mapping.ofJson text = .error (.refuse (.notAnObject found)) ↔
      ∃ value, (Codec.mk .json maxBytes).decode (Utf8.encode text) = .ok value ∧
        value.asMap? = none ∧ found = value.typeName) ∧
    (Mapping.ofJson text = .error (.refuse (.unreadable .json)) ↔
      (Codec.mk .json maxBytes).decode (Utf8.encode text) = .error (.decode .malformed)) ∧
    ∀ tree : Json.Tree, tree.toValue = tree.read := by
  rw [decode_encode_text fits, Mapping.ofJson]
  cases (Json.Term.parse? text).bind Json.Term.tree? with
  | none =>
    exact ⟨by simp, by simp [Error.refuse, Cause.error], by simp, Json.Tree.toValue_eq_read⟩
  | some tree =>
    refine ⟨?mappings, ?others, ?documents, Json.Tree.toValue_eq_read⟩
    -- Nothing depends on the tree but the value that both readers make of it.
    all_goals
      simp only
      generalize tree.toValue = value
      cases value <;> simp [Value.asMap?, Error.refuse, Cause.error, eq_comm]

/-- A document with a repeated key and with integers at and beyond the ends of their range. -/
def repeatedKey : String :=
  "\x7b\"b\":1,\"a\":[9223372036854775808,-9223372036854775808],\"b\":null\x7d"

/-- A codec decodes a document with a repeated key to the mapping that is read from it. -/
theorem ofJson_iff_decode_repeated :
    (Utf8.encode repeatedKey).length ≤ 64 ∧
      (Codec.mk .json 64).decode (Utf8.encode repeatedKey) =
        .ok (.map [("a", .list [.uint 9223372036854775808, .int (-9223372036854775808)]),
          ("b", .null)]) := by
  have fits : (Utf8.encode repeatedKey).length ≤ 64 := by decide
  have tokens : Json.Token.ofText? repeatedKey.toList = some [.openObject, .string [.plain 'b'],
      .colon, .number ⟨false, 1, [], none⟩, .comma, .string [.plain 'a'], .colon, .openArray,
      .number ⟨false, 9223372036854775808, [], none⟩, .comma,
      .number ⟨true, 9223372036854775808, [], none⟩, .closeArray, .comma, .string [.plain 'b'],
      .colon, .null, .closeObject] := by decide +kernel
  have tree : (Json.Term.parse? repeatedKey).bind Json.Term.tree? =
      some (.object [("a", .array [.number (.natural 9223372036854775808),
        .number (.negative (-9223372036854775808))]), ("b", .null)]) := by
    rw [Json.Term.parse?, tokens]
    rfl
  refine ⟨fits, ((ofJson_iff_decode 64 repeatedKey fits).1 _).mp ?_⟩
  rw [Mapping.ofJson, tree]
  rfl

end Codec

end TypedRecord
