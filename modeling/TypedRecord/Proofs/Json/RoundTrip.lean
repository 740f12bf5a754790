import Mathlib.Data.List.Forall2
import TypedRecord.Codec
import TypedRecord.Proofs.Json.Scalars
import TypedRecord.Proofs.Json.Terms

/-!
# Values through JSON

A value is refused in JSON exactly when a number somewhere inside it is not finite. The term of any
other value is read back from its text; it means the normal form of the value exactly when every
number inside reads back, and the normal form has the same term.
-/
namespace TypedRecord

namespace Value

open Json (Term Piece)

/-! ### Numbers that are not finite -/

/-- A list has no number that is not finite when no item has one. -/
theorem firstNonFiniteItem?_eq_none_iff {items : List Value} :
    firstNonFiniteItem? items = none ↔ ∀ item ∈ items, item.firstNonFinite? = none := by
  induction items with
  | nil => simp [firstNonFiniteItem?]
  | cons item rest ih => simp [firstNonFiniteItem?, ih]

/-- A map has no number that is not finite when no value has one. -/
theorem firstNonFiniteMember?_eq_none_iff {entries : Mapping} :
    firstNonFiniteMember? entries = none ↔ ∀ entry ∈ entries, entry.2.firstNonFinite? = none := by
  induction entries with
  | nil => simp [firstNonFiniteMember?]
  | cons entry rest ih => simp [firstNonFiniteMember?, ih]

/-- What holds of every number in a list holds of every number in its items. -/
theorem forall_float_list_iff {holds : Double → Prop} {items : List Value} :
    (∀ number, Part (.float number) (.list items) → holds number) ↔
      ∀ item ∈ items, ∀ number, Part (.float number) item → holds number := by
  constructor
  · exact fun every item member number inner => every number (.item member inner)
  · rintro every number (_ | ⟨member, inner⟩)
    exact every _ member number inner

/-- What holds of every number in a map holds of every number in its values. -/
theorem forall_float_map_iff {holds : Double → Prop} {entries : Mapping} :
    (∀ number, Part (.float number) (.map entries) → holds number) ↔
      ∀ entry ∈ entries, ∀ number, Part (.float number) entry.2 → holds number := by
  constructor
  · exact fun every entry member number inner => every number (.entry member inner)
  · rintro every number (_ | _ | ⟨member, inner⟩)
    exact every _ member number inner

/-- A number has no other number in it. -/
theorem forall_float_float_iff {holds : Double → Prop} {datum : Double} :
    (∀ number, Part (.float number) (.float datum) → holds number) ↔ holds datum := by
  constructor
  · exact fun every => every datum (.self _)
  · rintro here number ⟨⟩
    exact here

/-- A value has no number that is not finite when every number at any depth is finite. -/
theorem firstNonFinite?_eq_none_iff {value : Value} :
    value.firstNonFinite? = none ↔
      ∀ number, Part (.float number) value → number.isFinite = true := by
  induction value using Value.induction with
  | null | bool _ | int _ | uint _ | text _ | blob _ | timestamp _ =>
    refine iff_of_true rfl fun number part => ?_
    cases part
  | float number =>
    rw [forall_float_float_iff]
    simp [firstNonFinite?]
  | list items ih =>
    rw [firstNonFinite?, firstNonFiniteItem?_eq_none_iff, forall_float_list_iff]
    exact forall₂_congr ih
  | map entries ih =>
    rw [firstNonFinite?, firstNonFiniteMember?_eq_none_iff, forall_float_map_iff]
    exact forall₂_congr ih

/-- A value reads back when every number at any depth does. -/
def ReadsBack (value : Value) : Prop := ∀ number, Part (.float number) value → number.ReadsBack

/-! ### Terms -/

/-- The terms of items, one by one. -/
theorem itemTerms_eq_map (items : List Value) : itemTerms items = items.map toTerm := by
  induction items with
  | nil => rfl
  | cons item rest ih => rw [itemTerms, ih, List.map_cons]

/-- The members of entries, one by one. -/
theorem entryTerms_eq_map (entries : Mapping) :
    entryTerms entries = entries.map fun entry => (Piece.ofText entry.1, entry.2.toTerm) := by
  induction entries with
  | nil => rfl
  | cons entry rest ih => rw [entryTerms, ih, List.map_cons]

/-- The texts of a value are written as what they are read from. -/
theorem written_toTerm (value : Value) : value.toTerm.Written := by
  induction value using Value.induction with
  | null | bool _ | int _ | uint _ | timestamp _ => trivial
  | float number =>
    rw [toTerm, Term.ofDouble]
    split <;> trivial
  | text content => exact Piece.written_ofText content
  | blob bytes =>
    refine Term.writtenItems_iff.mpr fun item member => ?_
    obtain ⟨byte, -, rfl⟩ := List.mem_map.mp member
    trivial
  | list items ih =>
    refine Term.writtenItems_iff.mpr fun item member => ?_
    rw [itemTerms_eq_map] at member
    obtain ⟨held, heldMember, rfl⟩ := List.mem_map.mp member
    exact ih held heldMember
  | map entries ih =>
    refine Term.writtenMembers_iff.mpr fun item member => ?_
    rw [entryTerms_eq_map] at member
    obtain ⟨held, heldMember, rfl⟩ := List.mem_map.mp member
    exact ⟨Piece.written_ofText held.1, ih held heldMember⟩

end Value

namespace Json.Term

/-- The items of an array are read one by one. -/
theorem valueItems?_eq_some_iff {levels : Nat} {items : List Term} {values : List Value} :
    valueItems? levels items = some values ↔
      List.Forall₂ (fun item value => item.valueWithin? levels = some value) items values := by
  induction items generalizing values with
  | nil => simp [valueItems?, eq_comm]
  | cons item rest ih =>
    rw [valueItems?]
    constructor
    · intro read
      split at read
      · next first others here later =>
        cases read
        exact .cons here (ih.mp later)
      · cases read
    · rintro (_ | ⟨here, later⟩)
      rw [here, ih.mpr later]

/-- The members of an object are read one by one, each as its key and its value. -/
theorem valueMembers?_eq_some_iff {levels : Nat} {members : List (List Piece × Term)}
    {entries : List (String × Value)} :
    valueMembers? levels members = some entries ↔
      List.Forall₂ (fun member entry => Piece.text? member.1 = some entry.1 ∧
        member.2.valueWithin? levels = some entry.2) members entries := by
  induction members generalizing entries with
  | nil => simp [valueMembers?, eq_comm]
  | cons member rest ih =>
    obtain ⟨pieces, item⟩ := member
    rw [valueMembers?]
    constructor
    · intro read
      split at read
      · next key value others named here later =>
        cases read
        exact .cons ⟨named, here⟩ (ih.mp later)
      · cases read
    · rintro (_ | ⟨⟨named, here⟩, later⟩)
      simp only [named, here, ih.mpr later]

/-- The members that are written of a map in order are read in that order. -/
theorem ofList_of_valueMembers? {levels : Nat} {entries : Mapping} (sorted : Entries.Sorted entries)
    {members : List (String × Value)}
    (read : valueMembers? levels (entries.map fun entry =>
      (Piece.ofText entry.1, entry.2.toTerm)) = some members) :
    Entries.ofList members = members := by
  have each := List.forall₂_map_left_iff.mp (valueMembers?_eq_some_iff.mp read)
  have keys : entries.map Prod.fst = members.map Prod.fst := by
    refine List.forall₂_eq_eq_eq ▸ List.forall₂_map_left_iff.mpr (List.forall₂_map_right_iff.mpr ?_)
    refine each.imp fun entry member same => ?_
    rw [Piece.text?_ofText] at same
    exact Option.some.inj same.1
  have ascending : Entries.Sorted members := by
    rw [Entries.Sorted, ← List.pairwise_map (f := Prod.fst) (R := (· < ·)), ← keys,
      List.pairwise_map]
    exact sorted
  exact ascending.ofList_self

/-- The term of a finite number means what its numeral is read as, when that is finite. -/
theorem valueWithin?_ofDouble {number : Double} (finite : number.isFinite = true) (levels : Nat) :
    ∃ again, number.reread? = some again ∧ (Term.ofDouble number).valueWithin? levels =
      if again.isFinite then some (.float again) else none := by
  obtain ⟨numeral, written, noInteger, -⟩ := Double.exists_numeral? numberLayout finite
  refine ⟨numeral.stepwise, by rw [Double.reread?, written, Option.map_some], ?_⟩
  simp only [Term.ofDouble, written]
  exact Number.read_real noInteger

/-- The term of a finite number means the number exactly when that reads back. -/
theorem valueWithin?_ofDouble_iff {number : Double} (finite : number.isFinite = true)
    (levels : Nat) :
    (Term.ofDouble number).valueWithin? levels = some (.float number) ↔ number.ReadsBack := by
  obtain ⟨again, reread, meant⟩ := valueWithin?_ofDouble finite levels
  rw [meant, Double.ReadsBack, reread, Option.some.injEq]
  constructor
  · intro same
    split at same
    · cases same
      rfl
    · cases same
  · rintro rfl
    rw [if_pos finite]

/-- The term of a byte means its number. -/
theorem valueWithin?_byte (byte : UInt8) (levels : Nat) :
    (Term.ofInt byte.toNat).valueWithin? levels = some (.int (Int64.ofInt byte.toNat)) := by
  have bound := byte.toNat_lt
  have number : (Int64.ofInt byte.toNat).toInt = byte.toNat :=
    Int64.toInt_ofInt_of_le (by omega) (by omega)
  have read := Number.read_ofInt (Int64.ofInt byte.toNat)
  rw [number] at read
  exact read

/-- The term of a value without infinite numbers means its normal form exactly when the value reads
back. -/
theorem valueWithin?_toTerm_iff {value : Value} {levels : Nat} (sorted : value.Sorted)
    (finite : value.firstNonFinite? = none) (shallow : value.levels .json ≤ levels) :
    value.toTerm.valueWithin? levels = some (value.normal .json) ↔ value.ReadsBack := by
  induction value using Value.induction generalizing levels with
  | null | bool _ => exact iff_of_true rfl fun _ part => by cases part
  | int number => exact iff_of_true (Number.read_ofInt number) fun _ part => by cases part
  | uint number => exact iff_of_true (Number.read_ofNat number) fun _ part => by cases part
  | timestamp time => exact iff_of_true (Number.read_ofInt time.millis) fun _ part => by cases part
  | float number =>
    have isFinite := Value.firstNonFinite?_eq_none_iff.mp finite number (.self _)
    rw [Value.ReadsBack, Value.forall_float_float_iff]
    exact valueWithin?_ofDouble_iff isFinite levels
  | text content =>
    refine iff_of_true ?_ fun _ part => by cases part
    rw [Value.toTerm, valueWithin?, Piece.text?_ofText]
    rfl
  | blob bytes =>
    have positive : 1 ≤ levels := shallow
    obtain ⟨inner, rfl⟩ := Nat.exists_eq_add_of_le' positive
    have items : valueItems? inner (bytes.map fun byte => Term.ofInt byte.toNat) =
        some (bytes.map fun byte => .int (Int64.ofInt byte.toNat)) := by
      rw [valueItems?_eq_some_iff, List.forall₂_map_left_iff, List.forall₂_map_right_iff,
        List.forall₂_same]
      exact fun byte _ => valueWithin?_byte byte inner
    refine iff_of_true ?_ fun _ part => by cases part
    rw [Value.toTerm, Term.ofBytes, valueWithin?, items]
    rfl
  | list items ih =>
    rw [Value.levels] at shallow
    obtain ⟨inner, rfl⟩ := Nat.exists_eq_add_of_le' (Nat.le_trans (Nat.le_add_left 1 _) shallow)
    have below := Value.levelsItems_le_iff.mp (Nat.le_of_succ_le_succ shallow)
    have none := Value.firstNonFiniteItem?_eq_none_iff.mp finite
    have sortedItems := Value.sortedItems_iff.mp sorted
    rw [Value.toTerm, valueWithin?, Value.itemTerms_eq_map, Value.normal_list,
      Option.map_eq_some_iff, Value.ReadsBack, Value.forall_float_list_iff]
    simp only [Value.list.injEq, exists_eq_right]
    rw [valueItems?_eq_some_iff, List.forall₂_map_left_iff, List.forall₂_map_right_iff,
      List.forall₂_same]
    exact forall₂_congr fun item member =>
      ih item member (sortedItems item member) (none item member) (below item member)
  | map entries ih =>
    rw [Value.levels] at shallow
    obtain ⟨inner, rfl⟩ := Nat.exists_eq_add_of_le' (Nat.le_trans (Nat.le_add_left 1 _) shallow)
    have below := Value.levelsEntries_le_iff.mp (Nat.le_of_succ_le_succ shallow)
    have none := Value.firstNonFiniteMember?_eq_none_iff.mp finite
    have sortedEntries := Value.sortedEntries_iff.mp sorted.2
    -- The keys are in order, so the map of the members is the list of them.
    have asList : (∃ members, valueMembers? inner (entries.map fun entry =>
        (Piece.ofText entry.1, entry.2.toTerm)) = some members ∧
          Value.map (Entries.ofList members) =
            .map (Entries.mapValues (Value.normal .json) entries)) ↔
        valueMembers? inner (entries.map fun entry =>
          (Piece.ofText entry.1, entry.2.toTerm)) =
            some (Entries.mapValues (Value.normal .json) entries) := by
      constructor
      · rintro ⟨members, read, same⟩
        rw [ofList_of_valueMembers? sorted.1 read, Value.map.injEq] at same
        rw [read, same]
      · exact fun read => ⟨_, read, by rw [ofList_of_valueMembers? sorted.1 read]⟩
    rw [Value.toTerm, valueWithin?, Value.entryTerms_eq_map, Value.normal_map,
      Option.map_eq_some_iff, asList, valueMembers?_eq_some_iff, Entries.mapValues,
      List.forall₂_map_left_iff, List.forall₂_map_right_iff, List.forall₂_same, Value.ReadsBack,
      Value.forall_float_map_iff]
    refine forall₂_congr fun entry member => ?_
    rw [Piece.text?_ofText, ih entry member (sortedEntries entry member) (none entry member)
      (below entry member)]
    exact and_iff_right rfl

end Json.Term

namespace Value

open Json (Term)

/-- An integer has the term of the natural number it is. -/
theorem ofInt_int64 {number : Nat} (small : number < 2 ^ 63) :
    Term.ofInt (Int64.ofInt number).toInt = Term.ofInt number := by
  rw [Int64.toInt_ofInt_of_le (by omega) (by omega)]

/-- The normal form of a value has the same term. -/
theorem toTerm_normal (value : Value) : (value.normal .json).toTerm = value.toTerm := by
  induction value using Value.induction with
  | null | bool _ | int _ | float _ | text _ | timestamp _ => rfl
  | uint number =>
    rw [normal]
    split
    · next small => exact ofInt_int64 small
    · rfl
  | blob bytes =>
    have bytes_eq : (bytes.map fun byte => (Value.int (Int64.ofInt byte.toNat)).toTerm) =
        bytes.map fun byte => Term.ofInt byte.toNat := by
      refine List.map_congr_left fun byte _ => ofInt_int64 ?_
      have := byte.toNat_lt
      omega
    show Term.array (itemTerms (bytes.map fun byte => .int (Int64.ofInt byte.toNat))) =
      Term.array (bytes.map fun byte => .ofInt byte.toNat)
    rw [itemTerms_eq_map, List.map_map, ← bytes_eq]
    rfl
  | list items ih =>
    rw [normal_list, toTerm, toTerm, itemTerms_eq_map, itemTerms_eq_map, List.map_map]
    congr 1
    exact List.map_congr_left ih
  | map entries ih =>
    rw [normal_map, toTerm, toTerm, entryTerms_eq_map, entryTerms_eq_map, Entries.mapValues,
      List.map_map]
    congr 1
    exact List.map_congr_left fun entry member => by rw [Function.comp_apply, ih entry member]

/-- The normal form of a value has the same first number that is not finite. -/
theorem firstNonFinite?_normal (value : Value) :
    (value.normal .json).firstNonFinite? = value.firstNonFinite? := by
  induction value using Value.induction with
  | null | bool _ | int _ | float _ | text _ | timestamp _ => rfl
  | uint number =>
    rw [normal]
    split <;> rfl
  | blob bytes =>
    rw [normal, firstNonFinite?, firstNonFiniteItem?_eq_none_iff.mpr]
    · rfl
    · intro item member
      obtain ⟨byte, -, rfl⟩ := List.mem_map.mp member
      rfl
  | list items ih =>
    rw [normal_list, firstNonFinite?, firstNonFinite?]
    induction items with
    | nil => rfl
    | cons item rest rest_ih =>
      obtain ⟨first, others⟩ := List.forall_mem_cons.mp ih
      rw [List.map_cons, firstNonFiniteItem?, firstNonFiniteItem?, first, rest_ih others]
  | map entries ih =>
    rw [normal_map, firstNonFinite?, firstNonFinite?, Entries.mapValues]
    induction entries with
    | nil => rfl
    | cons entry rest rest_ih =>
      obtain ⟨first, others⟩ := List.forall_mem_cons.mp ih
      rw [List.map_cons, firstNonFiniteMember?, firstNonFiniteMember?, first, rest_ih others]

end Value

namespace WireFormat

/-- The text of a term is read as what the term means. -/
theorem decodeJson_render {term : Json.Term} (written : term.Written) :
    decodeJson (Utf8.encode term.render) = term.value?.elim (.error .malformed) .ok := by
  rw [decodeJson, Utf8.decode?_encode, Option.bind_some, Json.Term.parse?_render written,
    Option.bind_some]
  cases term.value? <;> rfl

/-- The text of a numeral that is no integer is read as what the steps come to. -/
theorem decodeJson_numeral {numeral : Numeral} (noInteger : numeral.isInteger = false)
    (finite : numeral.stepwise.isFinite = true) :
    decodeJson (Utf8.encode (Json.Term.number numeral).render) = .ok (.float numeral.stepwise) := by
  have written : (Json.Term.number numeral).Written := trivial
  rw [decodeJson_render written, Json.Term.value?, Json.Term.valueWithin?,
    Json.Number.read_real noInteger, if_pos finite, Option.elim_some]

/-- The text of a finite number under a key is read as what the numeral of the number is read as,
when that is finite. -/
theorem decodeJson_number (name : String) {number : Double} (finite : number.isFinite = true) :
    ∃ again, number.reread? = some again ∧
      decodeJson (Utf8.encode (Value.map [(name, .float number)]).toTerm.render) =
        if again.isFinite then .ok (.map [(name, .float again)]) else .error .malformed := by
  obtain ⟨again, reread, meant⟩ := Json.Term.valueWithin?_ofDouble finite 126
  refine ⟨again, reread, ?_⟩
  rw [decodeJson_render (Value.written_toTerm _)]
  simp only [Value.toTerm, Value.entryTerms, Json.Term.value?, Json.Term.valueWithin?,
    Json.maxLevels, Json.Term.valueMembers?, Json.Piece.text?_ofText, meant]
  cases again.isFinite <;> rfl

/-- The text of a value without infinite numbers is read as its normal form exactly when the value
reads back. -/
theorem decodeJson_toTerm_iff {value : Value} (sorted : value.Sorted)
    (finite : value.firstNonFinite? = none) (shallow : value.levels .json ≤ Json.maxLevels) :
    decodeJson (Utf8.encode value.toTerm.render) = .ok (value.normal .json) ↔ value.ReadsBack := by
  rw [decodeJson_render (Value.written_toTerm value),
    ← Json.Term.valueWithin?_toTerm_iff sorted finite shallow, Json.Term.value?]
  cases value.toTerm.valueWithin? Json.maxLevels <;> simp

end WireFormat

namespace Codec

/-- A value whose numbers are all finite is written in JSON as the text of its term, and no other
one is written. -/
theorem encode_json_eq_ok_iff {maxBytes : Nat} {value : Value} {payload : List UInt8} :
    (Codec.mk .json maxBytes).encode value = .ok payload ↔
      value.firstNonFinite? = none ∧ payload = Utf8.encode value.toTerm.render := by
  cases found : value.firstNonFinite? <;> simp [encode, found, eq_comm]

/-- A codec that agrees to decode the text of a value reads it as the normal form of the value
exactly when the value reads back. -/
theorem decode_toTerm_iff {maxBytes : Nat} {value : Value} (sorted : value.Sorted)
    (finite : value.firstNonFinite? = none) (shallow : value.levels .json ≤ Json.maxLevels)
    (fits : (Utf8.encode value.toTerm.render).length ≤ maxBytes) :
    (Codec.mk .json maxBytes).decode (Utf8.encode value.toTerm.render) = .ok (value.normal .json) ↔
      value.ReadsBack := by
  rw [decode_eq_ok_iff, WireFormat.decode, WireFormat.decodeJson_toTerm_iff sorted finite shallow]
  exact and_iff_right fits

/-- A value is refused in JSON exactly when a number at some depth is not finite, and then because
of such a number. Any other value is written; when its document has at most 127 levels, a codec that
agrees to decode the payload reads it as the normal form of the value, provided that the text of
every number in it is read as that number, and only then. The normal form is its own normal form and
is written as the same payload. -/
theorem json_decode_encode (maxBytes : Nat) (value : Value) (sorted : value.Sorted) :
    ((∃ cause, (Codec.mk .json maxBytes).encode value = .error (.encode cause)) ↔
      ∃ number, Value.Part (.float number) value ∧ number.isFinite = false) ∧
    ((∀ number, Value.Part (.float number) value → number.isFinite = true) →
      ∃ payload, (Codec.mk .json maxBytes).encode value = .ok payload ∧
        (value.levels .json ≤ 127 → payload.length ≤ maxBytes →
          ((Codec.mk .json maxBytes).decode payload = .ok (value.normal .json) ↔
            value.ReadsBack)) ∧
        (value.normal .json).normal .json = value.normal .json ∧
        (Codec.mk .json maxBytes).encode (value.normal .json) = .ok payload) := by
  constructor
  · cases found : value.firstNonFinite? with
    | none =>
      have finite := Value.firstNonFinite?_eq_none_iff.mp found
      have written : (Codec.mk .json maxBytes).encode value =
          .ok (Utf8.encode value.toTerm.render) := encode_json_eq_ok_iff.mpr ⟨found, rfl⟩
      constructor
      · rintro ⟨cause, refused⟩
        rw [written] at refused
        cases refused
      · rintro ⟨number, part, infinite⟩
        rw [finite number part] at infinite
        cases infinite
    | some number =>
      have refused : (Codec.mk .json maxBytes).encode value =
          .error (.encode (.nonFinite number)) := by
        simp only [encode, found]
      have notFinite : ¬ ∀ number, Value.Part (.float number) value → number.isFinite = true := by
        rw [← Value.firstNonFinite?_eq_none_iff, found]
        exact Option.some_ne_none number
      constructor
      · intro _
        by_contra none
        refine notFinite fun number part => ?_
        by_contra infinite
        exact none ⟨number, part, by simpa using infinite⟩
      · intro _
        exact ⟨_, refused⟩
  · intro finite
    have none := Value.firstNonFinite?_eq_none_iff.mpr finite
    have normalNone := (Value.firstNonFinite?_normal value).trans none
    exact ⟨Utf8.encode value.toTerm.render, encode_json_eq_ok_iff.mpr ⟨none, rfl⟩,
      fun shallow fits => decode_toTerm_iff sorted none shallow fits, Value.normal_normal value,
      encode_json_eq_ok_iff.mpr ⟨normalNone, by rw [Value.toTerm_normal]⟩⟩

/-- A blob in a nested list is read as the list of its bytes. -/
theorem json_decode_encode_nested :
    ∃ payload, (Codec.mk .json payload.length).encode
        (.map [("ids", .list [.uint 7, .blob [1, 2]]), ("rate", .float Binary.zero)]) =
          .ok payload ∧
      (Codec.mk .json payload.length).decode payload =
        .ok (.map [("ids", .list [.int 7, .list [.int 1, .int 2]]),
          ("rate", .float Binary.zero)]) := by
  have sorted : Value.Sorted
      (.map [("ids", .list [.uint 7, .blob [1, 2]]), ("rate", .float Binary.zero)]) :=
    ⟨by decide, ⟨trivial, trivial, trivial⟩, trivial, trivial⟩
  have finite : ∀ number, Value.Part (.float number)
      (.map [("ids", .list [.uint 7, .blob [1, 2]]), ("rate", .float Binary.zero)]) →
        number.isFinite = true := Value.firstNonFinite?_eq_none_iff.mp (by decide)
  obtain ⟨payload, written, -⟩ := (json_decode_encode 0 _ sorted).2 finite
  obtain ⟨same, rewritten, read, -⟩ := (json_decode_encode payload.length _ sorted).2 finite
  have payloads : same = payload := Except.ok.inj (rewritten.symm.trans written)
  subst payloads
  have readsBack : Value.ReadsBack
      (.map [("ids", .list [.uint 7, .blob [1, 2]]), ("rate", .float Binary.zero)]) := by
    rw [Value.ReadsBack, Value.forall_float_map_iff, List.forall_mem_cons,
      List.forall_mem_singleton, Value.forall_float_list_iff, List.forall_mem_cons,
      List.forall_mem_singleton, Value.forall_float_float_iff]
    exact ⟨⟨nofun, nofun⟩, by decide +kernel⟩
  exact ⟨same, rewritten, (read (by decide) (Nat.le_refl _)).mpr readsBack⟩

end Codec

end TypedRecord
