import TypedRecord.Proofs.Cbor.Steps
import TypedRecord.Proofs.RoundTrip

/-!
# Decoded values

Whatever bytes a codec decodes, canonical or not, it makes a value in normal form: one whose
document is read back as the value itself. Reading JSON builds such a value from its parts, and
reading CBOR holds such values in every frame that is still open, with as many levels to spare as
the frames leave. So a decoded value is encoded, and what it is encoded as is decoded to it, in JSON
as far as the numbers in it are read back from their texts.
-/
namespace TypedRecord

namespace Value

variable {format : WireFormat}

/-- Every part of a value in normal form is in normal form. -/
theorem Part.normal_eq {part whole : Value} (inside : Part part whole)
    (normal : whole.normal format = whole) : part.normal format = part := by
  induction inside with
  | self => exact normal
  | @item item items member _ ih =>
    rw [normal_list, Value.list.injEq] at normal
    exact ih (List.map_inj_left.mp (normal.trans (List.map_id items).symm) item member)
  | @entry entry entries member _ ih =>
    rw [normal_map, Value.map.injEq] at normal
    have same := List.map_inj_left.mp (normal.trans (List.map_id entries).symm) entry member
    exact ih (congrArg Prod.snd same)

/-- What a reader of a format makes of a document of at most so many levels. -/
structure Decoded (format : WireFormat) (levels : Nat) (value : Value) : Prop where
  /-- The keys of every map are in strictly ascending order. -/
  sorted : value.Sorted
  /-- The value is in normal form. -/
  normal : value.normal format = value
  /-- Every number of a JSON document is finite. -/
  finite : format = .json → value.firstNonFinite? = none
  /-- The value has no more levels than its document. -/
  shallow : value.levels format ≤ levels

namespace Decoded

variable {levels : Nat}

/-- A value of few levels has at most as many as more levels. -/
theorem mono {value : Value} {more : Nat} (decoded : value.Decoded format levels)
    (fewer : levels ≤ more) : value.Decoded format more :=
  { decoded with shallow := Nat.le_trans decoded.shallow fewer }

/-- An unsigned integer is signed when it fits. -/
theorem ofUInt64 (number : UInt64) : (Value.ofUInt64 number).Decoded format levels := by
  have normal : (Value.ofUInt64 number).normal format = Value.ofUInt64 number := by
    rw [@ofUInt64_eq_normal format, normal_normal]
  rw [Value.ofUInt64] at normal ⊢
  cases fits : int64? number.toNat with
  | some signed => exact ⟨trivial, rfl, fun _ => rfl, Nat.zero_le _⟩
  | none =>
    simp only [fits] at normal
    exact ⟨trivial, normal, fun _ => rfl, Nat.zero_le _⟩

/-- A list of decoded items takes one level more. -/
theorem list {items : List Value} (each : ∀ item ∈ items, item.Decoded format levels) :
    (Value.list items).Decoded format (levels + 1) where
  sorted := sortedItems_iff.mpr fun item member => (each item member).sorted
  normal := by
    rw [normal_list, List.map_congr_left fun item member => (each item member).normal,
      List.map_id']
  finite json :=
    firstNonFiniteItem?_eq_none_iff.mpr fun item member => (each item member).finite json
  shallow := Nat.succ_le_succ (levelsItems_le_iff.mpr fun item member => (each item member).shallow)

/-- A map of decoded values takes one level more. -/
theorem map {entries : Mapping} (sorted : Entries.Sorted entries)
    (each : ∀ entry ∈ entries, entry.2.Decoded format levels) :
    (Value.map entries).Decoded format (levels + 1) where
  sorted := ⟨sorted, sortedEntries_iff.mpr fun entry member => (each entry member).sorted⟩
  normal := by
    rw [normal_map, Entries.mapValues,
      List.map_congr_left fun entry member => by rw [(each entry member).normal], List.map_id']
  finite json :=
    firstNonFiniteMember?_eq_none_iff.mpr fun entry member => (each entry member).finite json
  shallow :=
    Nat.succ_le_succ (levelsEntries_le_iff.mpr fun entry member => (each entry member).shallow)

end Decoded

end Value

/-! ### Reading JSON -/

namespace Json

open Value (Decoded)

/-- A numeral is read as a number in normal form that is finite. -/
theorem Number.decoded_read {numeral : Numeral} {number : Number} {levels : Nat}
    (read : Number.ofNumeral? numeral = some number) : number.read.Decoded .json levels := by
  cases number with
  | natural unsigned => exact .ofUInt64 unsigned
  | negative signed => exact ⟨trivial, rfl, fun _ => rfl, Nat.zero_le _⟩
  | real datum =>
    have finite : datum.isFinite = true := by
      rw [ofNumeral?] at read
      grind
    refine ⟨trivial, rfl, fun _ => ?_, Nat.zero_le _⟩
    simp [Number.read, Value.firstNonFinite?, finite]

namespace Term

mutual

/-- A term is read as a decoded value. -/
theorem decoded_valueWithin? {levels : Nat} : ∀ {term : Term} {value : Value},
    term.valueWithin? levels = some value → value.Decoded .json levels
  | .null, value, read | .bool _, value, read => by
    cases read
    exact ⟨trivial, rfl, fun _ => rfl, Nat.zero_le _⟩
  | .number numeral, value, read => by
    obtain ⟨number, held, rfl⟩ := Option.map_eq_some_iff.mp read
    exact Number.decoded_read held
  | .string pieces, value, read => by
    obtain ⟨content, -, rfl⟩ := Option.map_eq_some_iff.mp read
    exact ⟨trivial, rfl, fun _ => rfl, Nat.zero_le _⟩
  | .array items, value, read => by
    cases levels with
    | zero => cases read
    | succ levels =>
      obtain ⟨values, held, rfl⟩ := Option.map_eq_some_iff.mp read
      exact .list (decoded_valueItems? held)
  | .object members, value, read => by
    cases levels with
    | zero => cases read
    | succ levels =>
      obtain ⟨entries, held, rfl⟩ := Option.map_eq_some_iff.mp read
      refine .map (Entries.sorted_ofList entries) fun entry member => ?_
      exact decoded_valueMembers? held entry
        ((Entries.mem_overlay member).resolve_left List.not_mem_nil)

/-- Items are read as decoded values. -/
theorem decoded_valueItems? {levels : Nat} : ∀ {items : List Term} {values : List Value},
    valueItems? levels items = some values → ∀ value ∈ values, value.Decoded .json levels
  | [], values, read => by
    cases read
    nofun
  | item :: rest, values, read => by
    rw [valueItems?] at read
    split at read
    · next value others first later =>
      cases read
      exact List.forall_mem_cons.mpr ⟨decoded_valueWithin? first, decoded_valueItems? later⟩
    · cases read

/-- Members are read as decoded values. -/
theorem decoded_valueMembers? {levels : Nat} :
    ∀ {members : List (List Piece × Term)} {entries : List (String × Value)},
    valueMembers? levels members = some entries →
      ∀ entry ∈ entries, entry.2.Decoded .json levels
  | [], entries, read => by
    cases read
    nofun
  | (key, item) :: rest, entries, read => by
    rw [valueMembers?] at read
    split at read
    · next text value others _ first later =>
      cases read
      exact List.forall_mem_cons.mpr ⟨decoded_valueWithin? first, decoded_valueMembers? later⟩
    · cases read

end

end Term

end Json

/-! ### Reading CBOR -/

namespace Cbor

open Value (Decoded)

/-- A head that is a value by itself is a decoded one. -/
theorem Head.decoded_value? {head : Head} {value : Value} {levels : Nat}
    (found : head.value? = some value) : value.Decoded .cbor levels := by
  cases head with
  | natural number =>
    obtain ⟨unsigned, -, rfl⟩ := Option.map_eq_some_iff.mp found
    exact .ofUInt64 unsigned
  | negative number | text content =>
    obtain ⟨held, -, rfl⟩ := Option.map_eq_some_iff.mp found
    exact ⟨trivial, rfl, nofun, Nat.zero_le _⟩
  | bytes _ | bool _ | null | float _ =>
    cases found
    exact ⟨trivial, rfl, nofun, Nat.zero_le _⟩
  | _ => cases found

namespace Reader

/-- The open frames hold what was decoded, and an item among them may have so many levels. -/
inductive Holding : Nat → List Frame → Prop where
  /-- Nothing is open. -/
  | nil : Holding maxLevels []
  /-- A list holds the items before the open place. -/
  | list {levels : Nat} {frames : List Frame} {remaining : Option Nat} {before : List Value}
    (outer : Holding (levels + 1) frames)
    (items : ∀ item ∈ before, item.Decoded .cbor levels) :
    Holding levels (.list remaining before :: frames)
  /-- A map holds the entries before the open place. -/
  | map {levels : Nat} {frames : List Frame} {remaining : Option Nat} {before : Mapping}
    {key : Option String} (outer : Holding (levels + 1) frames) (sorted : Entries.Sorted before)
    (values : ∀ entry ∈ before, entry.2.Decoded .cbor levels) :
    Holding levels (.map remaining before key :: frames)
  /-- A tag holds nothing. -/
  | tag {levels : Nat} {frames : List Frame} (outer : Holding (levels + 1) frames) :
    Holding levels (.tag :: frames)

/-- A state holds what was decoded. -/
def State.Holds : State → Prop
  | .item frames => ∃ levels, Holding levels frames
  | .complete value => value.Decoded .cbor maxLevels

/-- Every open frame takes one level. -/
theorem Holding.levels_add {levels : Nat} {frames : List Frame} (holding : Holding levels frames) :
    levels + frames.length = maxLevels := by
  induction holding with
  | nil => rfl
  | list _ _ ih | map _ _ _ ih | tag _ ih => rw [List.length_cons, ← ih]; omega

/-- A decoded value that is delivered is held, up to the value that is complete. -/
theorem Holding.deliver {levels : Nat} {frames : List Frame} (holding : Holding levels frames)
    {value : Value} (decoded : value.Decoded .cbor levels) : (deliver value frames).Holds := by
  induction holding generalizing value with
  | nil => exact decoded
  | tag outer ih => exact ih (decoded.mono (Nat.le_succ _))
  | @list levels frames remaining before outer items ih =>
    have every : ∀ item ∈ value :: before, item.Decoded .cbor levels :=
      List.forall_mem_cons.mpr ⟨decoded, items⟩
    rw [Reader.deliver]
    split
    · exact ih (.list fun item member => every item (List.mem_reverse.mp member))
    · exact ⟨_, .list outer every⟩
  | @map levels frames remaining before key outer sorted values ih =>
    cases key with
    | none => exact ⟨_, .map outer sorted values⟩
    | some key =>
      have sorted := sorted.insert key value
      have every : ∀ entry ∈ Entries.insert before key value, entry.2.Decoded .cbor levels := by
        intro entry member
        rcases Entries.mem_insert member with rfl | earlier
        · exact decoded
        · exact values entry earlier
      simp only [Reader.deliver]
      split
      · exact ih (.map sorted every)
      · exact ⟨_, .map outer sorted every⟩

/-- A key that is delivered changes nothing that is held. -/
theorem Holding.deliverKey {levels : Nat} {frames : List Frame} (holding : Holding levels frames)
    (key : String) : (deliverKey key frames).Holds := by
  induction holding with
  | nil => exact ⟨_, .nil⟩
  | list outer items => exact ⟨_, .list outer items⟩
  | map outer sorted values => exact ⟨_, .map outer sorted values⟩
  | tag _ ih => exact ih

/-- There is a level for a further frame while there are not too many of them. -/
theorem Holding.exists_below {levels : Nat} {frames : List Frame} (holding : Holding levels frames)
    (shallow : frames.length < maxLevels) : ∃ below, levels = below + 1 :=
  have taken := holding.levels_add
  ⟨levels - 1, by omega⟩

/-- A step holds what was held and what the head completes. -/
theorem State.Holds.step {state next : State} (holds : state.Holds) {head : Head}
    (stepped : step state head = .ok next) : next.Holds := by
  cases state with
  | complete value => cases stepped
  | item frames =>
    obtain ⟨levels, holding⟩ := holds
    cases Step.of_step stepped with
    | key place found => exact holding.deliverKey _
    | value place found => exact holding.deliver (Head.decoded_value? found)
    | array place shallow room =>
      obtain ⟨below, rfl⟩ := holding.exists_below shallow
      split
      · exact holding.deliver (.list nofun)
      · exact ⟨_, .list holding nofun⟩
    | map place shallow =>
      obtain ⟨below, rfl⟩ := holding.exists_below shallow
      split
      · exact holding.deliver (.map List.Pairwise.nil nofun)
      · exact ⟨_, .map holding List.Pairwise.nil nofun⟩
    | tag shallow =>
      obtain ⟨below, rfl⟩ := holding.exists_below shallow
      exact ⟨_, .tag holding⟩
    | endList =>
      cases holding with
      | list outer items =>
        exact outer.deliver (.list fun item member => items item (List.mem_reverse.mp member))
    | endMap =>
      cases holding with
      | map outer sorted values => exact outer.deliver (.map sorted values)

/-- A run holds what was held and what its heads complete. -/
theorem State.Holds.run {heads : List Head} {state last : State} (holds : state.Holds)
    (ran : run state heads = .ok last) : last.Holds := by
  induction heads generalizing state with
  | nil =>
    cases ran
    exact holds
  | cons head rest ih =>
    rw [Reader.run] at ran
    split at ran
    · next next stepped => exact ih (holds.step stepped) ran
    · cases ran

end Reader

end Cbor

/-! ### Room for what is written -/

/-- A head has at least one byte. -/
theorem Cbor.Head.length_argumentBytes_pos (major argument : Nat) :
    0 < (argumentBytes major argument).length := by
  unfold argumentBytes
  split_ifs <;> exact Nat.succ_pos _

namespace Value

open Cbor (Head itemRoom maxRoom)

/-- A value has at least one byte. -/
theorem length_toCbor_pos (value : Value) : 0 < value.toCbor.length := by
  have integer : ∀ number, 0 < (Head.integerBytes number).length := fun number => by
    unfold Head.integerBytes
    split_ifs <;> exact Head.length_argumentBytes_pos _ _
  cases value with
  | null => exact Nat.one_pos
  | bool truth => cases truth <;> exact Nat.one_pos
  | int number | timestamp time => exact integer _
  | uint number => exact Head.length_argumentBytes_pos _ _
  | float number =>
    simp only [toCbor, Head.floatBytes]
    split_ifs <;> exact Nat.succ_pos _
  | text _ | blob _ | list _ | map _ =>
    simp only [toCbor, textCbor, List.length_append]
    exact Nat.add_pos_left (Head.length_argumentBytes_pos _ _) _

/-- A list is written in at least one byte for each item, and in at least those of each item. -/
theorem length_itemsCbor (items : List Value) :
    items.length ≤ (itemsCbor items).length ∧
      ∀ item ∈ items, item.toCbor.length ≤ (itemsCbor items).length := by
  induction items with
  | nil => exact ⟨Nat.le_refl _, nofun⟩
  | cons item rest ih =>
    have first := item.length_toCbor_pos
    rw [itemsCbor, List.length_append, List.length_cons]
    refine ⟨by omega, List.forall_mem_cons.mpr ⟨by omega, fun other member => ?_⟩⟩
    have := ih.2 other member
    omega

/-- A map is written in at least one byte for each entry, and in at least those of each key and each
value. -/
theorem length_entriesCbor (entries : Mapping) :
    entries.length ≤ (entriesCbor entries).length ∧
      ∀ entry ∈ entries, (Utf8.encode entry.1).length ≤ (entriesCbor entries).length ∧
        entry.2.toCbor.length ≤ (entriesCbor entries).length := by
  induction entries with
  | nil => exact ⟨Nat.le_refl _, nofun⟩
  | cons entry rest ih =>
    have first := entry.2.length_toCbor_pos
    simp only [entriesCbor, textCbor, List.length_append, List.length_cons]
    refine ⟨by omega, List.forall_mem_cons.mpr ⟨by omega, fun other member => ?_⟩⟩
    have := ih.2 other member
    omega

/-- What takes no more bytes has room for its items too. -/
theorem room_of_le {part whole : Nat} (within : part ≤ whole)
    (room : whole * itemRoom ≤ maxRoom) : part * itemRoom ≤ maxRoom :=
  Nat.le_trans (Nat.mul_le_mul_right _ within) room

/-- What has room as items has room as bytes. -/
theorem le_maxRoom {length : Nat} (room : length * itemRoom ≤ maxRoom) : length ≤ maxRoom :=
  Nat.le_trans (Nat.le_mul_of_pos_right _ (by decide)) room

/-- A value is addressable when there is room for as many items as it is written in bytes. -/
theorem addressable_of_length {value : Value} (room : value.toCbor.length * itemRoom ≤ maxRoom) :
    value.Addressable := by
  induction value using Value.induction with
  | null | bool _ | int _ | uint _ | float _ | timestamp _ => trivial
  | text content =>
    rw [toCbor, textCbor, List.length_append] at room
    exact le_maxRoom (room_of_le (Nat.le_add_left _ _) room)
  | blob bytes =>
    rw [toCbor, List.length_append] at room
    exact le_maxRoom (room_of_le (Nat.le_add_left _ _) room)
  | list items ih =>
    rw [toCbor, List.length_append] at room
    have inner := room_of_le (Nat.le_add_left _ _) room
    obtain ⟨count, each⟩ := length_itemsCbor items
    exact ⟨room_of_le count inner, addressableItems_iff.mpr fun item member =>
      ih item member (room_of_le (each item member) inner)⟩
  | map entries ih =>
    rw [toCbor, List.length_append] at room
    have inner := room_of_le (Nat.le_add_left _ _) room
    obtain ⟨count, each⟩ := length_entriesCbor entries
    refine ⟨le_maxRoom (room_of_le count inner), addressableEntries_iff.mpr fun entry member => ?_⟩
    obtain ⟨key, held⟩ := each entry member
    exact ⟨le_maxRoom (room_of_le key inner), ih entry member (room_of_le held inner)⟩

end Value

namespace Codec

/-- What a codec decodes is in normal form and has few levels. -/
theorem decoded_of_decode {codec : Codec} {bytes : List UInt8} {value : Value}
    (decoded : codec.decode bytes = .ok value) : value.Decoded codec.format 127 := by
  obtain ⟨format, maxBytes⟩ := codec
  have read : format.decode bytes = .ok value := (decode_eq_ok_iff.mp decoded).2
  cases format with
  | json =>
    rw [WireFormat.decode, WireFormat.decodeJson] at read
    split at read
    · next found =>
      obtain ⟨term, -, held⟩ := Option.bind_eq_some_iff.mp found
      cases read
      exact Json.Term.decoded_valueWithin? held
    · cases read
  | cbor =>
    rw [WireFormat.decode, Cbor.decode] at read
    split at read
    · next ran =>
      cases read
      have start : (Cbor.Reader.State.item []).Holds := ⟨_, .nil⟩
      exact start.run ran
    · cases read
    · cases read

/-- A decoded value has no timestamp and no unsigned integer that would fit a signed one at any
depth, nor, in JSON, a blob or a number that is not finite, whatever the bytes were. So it is
encoded. In CBOR a codec that agrees to decode the payload decodes it to the value again; the value
then has to be addressable, as whatever a program holds is and as a codec ensures that agrees to
decode no more bytes than there is room for items. In JSON it does exactly when every number in the
value is read back from its text, as short ones are. -/
theorem encode_of_decode {codec : Codec} {bytes : List UInt8} {value : Value}
    (decoded : codec.decode bytes = .ok value) :
    (∀ time, ¬ Value.Part (.timestamp time) value) ∧
    (∀ number, Value.Part (.uint number) value → 2 ^ 63 ≤ number.toNat) ∧
    (codec.format = .json → (∀ content, ¬ Value.Part (.blob content) value) ∧
      ∀ number, Value.Part (.float number) value → number.isFinite = true) ∧
    ∃ payload, codec.encode value = .ok payload ∧
      (payload.length ≤ codec.maxBytes →
        (codec.format = .cbor →
          value.Addressable ∨ codec.maxBytes * Cbor.itemRoom ≤ Cbor.maxRoom) →
        (codec.decode payload = .ok value ↔ (codec.format = .json → value.ReadsBack)) ∧
        ((∀ number, Value.Part (.float number) value → number.Short) →
          codec.decode payload = .ok value)) := by
  have held := decoded_of_decode decoded
  refine ⟨?_, ?_, ?_, ?_⟩
  · intro time part
    cases part.normal_eq held.normal
  · intro number part
    have normal := part.normal_eq held.normal
    by_contra small
    rw [Value.normal, if_pos (Nat.lt_of_not_le small)] at normal
    cases normal
  · intro json
    refine ⟨fun content part => ?_, Value.firstNonFinite?_eq_none_iff.mp (held.finite json)⟩
    have normal := part.normal_eq held.normal
    rw [json] at normal
    cases normal
  · obtain ⟨format, maxBytes⟩ := codec
    cases format with
    | json =>
      have finite := held.finite rfl
      refine ⟨_, encode_json_eq_ok_iff.mpr ⟨finite, rfl⟩, fun fits _ => ?_⟩
      have again := decode_toTerm_iff held.sorted finite held.shallow fits
      rw [held.normal] at again
      refine ⟨again.trans ⟨fun reads _ => reads, fun reads => reads rfl⟩,
        fun short => again.mpr ?_⟩
      exact fun number part => Double.readsBack_of_short
        (Value.firstNonFinite?_eq_none_iff.mp finite number part) (short number part)
    | cbor =>
      have notJson : WireFormat.cbor ≠ .json := by decide
      refine ⟨value.toCbor, rfl, fun fits room => ?_⟩
      have addressable : value.Addressable := (room rfl).elim id fun bounded =>
        Value.addressable_of_length (Nat.le_trans (Nat.mul_le_mul_right _ fits) bounded)
      have again : (Codec.mk .cbor maxBytes).decode value.toCbor = .ok (value.normal .cbor) :=
        decode_of_encode ⟨held.sorted, addressable⟩ notJson.elim rfl fits held.shallow
      rw [held.normal] at again
      exact ⟨iff_of_true again notJson.elim, fun _ => again⟩

/-- A map without a length, with one key as bytes and as a text, a tag and a long count is decoded
to a map that is decoded from its own encoding. -/
theorem encode_of_decode_irregular :
    (Codec.standard .cbor).decode
        [0xbf, 0x41, 0x61, 0xf5, 0x61, 0x61, 0xc0, 0x9f, 0x18, 0x07, 0xff, 0xff] =
      .ok (.map [("a", .list [.int 7])]) ∧
    ∃ payload, (Codec.standard .cbor).encode (.map [("a", .list [.int 7])]) = .ok payload ∧
      (Codec.standard .cbor).decode payload = .ok (.map [("a", .list [.int 7])]) := by
  have heads : Cbor.Head.ofBytes
      [0xbf, 0x41, 0x61, 0xf5, 0x61, 0x61, 0xc0, 0x9f, 0x18, 0x07, 0xff, 0xff] =
        [.map none, .bytes [0x61], .bool true, .text [0x61], .tag, .array none, .natural 7, .stop,
          .stop] := by decide +kernel
  have decoded : (Codec.standard .cbor).decode
      [0xbf, 0x41, 0x61, 0xf5, 0x61, 0x61, 0xc0, 0x9f, 0x18, 0x07, 0xff, 0xff] =
        .ok (.map [("a", .list [.int 7])]) := by
    refine decode_eq_ok_iff.mpr ⟨by decide, ?_⟩
    rw [standard, WireFormat.decode, Cbor.decode, heads]
    rfl
  obtain ⟨-, -, -, payload, written, again⟩ := encode_of_decode decoded
  have fits : payload.length ≤ (Codec.standard .cbor).maxBytes := by
    cases written
    decide
  have notJson : (Codec.standard .cbor).format ≠ .json := by decide
  exact ⟨decoded, payload, written, (again fits fun _ => .inr (by decide)).1.mpr notJson.elim⟩

/-- A number of a JSON text is decoded, encoded with one digit less and decoded to another one. -/
theorem decoded_number_drifts :
    (Codec.standard .json).decode (Utf8.encode "0.99999999999999989") =
      .ok (.float Double.belowOne) ∧
    (Codec.standard .json).encode (.float Double.belowOne) =
      .ok (Utf8.encode "0.9999999999999999") ∧
    (Codec.standard .json).decode (Utf8.encode "0.9999999999999999") =
      .ok (.float (Binary.ofInt 1)) ∧
    Double.belowOne ≠ Binary.ofInt 1 := by
  have first : (Json.Term.number ⟨false, 0,
      [9, 9, 9, 9, 9, 9, 9, 9, 9, 9, 9, 9, 9, 9, 9, 8, 9], none⟩).render =
        "0.99999999999999989" := by decide +kernel
  have second : (Json.Term.number ⟨false, 0,
      [9, 9, 9, 9, 9, 9, 9, 9, 9, 9, 9, 9, 9, 9, 9, 9], none⟩).render =
        "0.9999999999999999" := by decide +kernel
  have written : (Value.float Double.belowOne).toTerm.render = "0.9999999999999999" := by
    decide +kernel
  refine ⟨decode_eq_ok_iff.mpr ⟨by decide +kernel, ?_⟩, ?_,
    decode_eq_ok_iff.mpr ⟨by decide +kernel, ?_⟩, by decide +kernel⟩
  · rw [standard, WireFormat.decode, ← first,
      WireFormat.decodeJson_numeral (by decide) (by decide +kernel)]
    exact congrArg (fun datum => Except.ok (Value.float datum)) (by decide +kernel)
  · rw [← written]
    rfl
  · rw [standard, WireFormat.decode, ← second,
      WireFormat.decodeJson_numeral (by decide) (by decide +kernel)]
    exact congrArg (fun datum => Except.ok (Value.float datum)) (by decide +kernel)

end Codec

end TypedRecord
