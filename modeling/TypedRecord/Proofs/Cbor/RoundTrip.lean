import TypedRecord.Proofs.Cbor.Heads

/-!
# Values through CBOR

The heads of a value take the reader from any place that wants an item to the state in which the
normal form of the value has been delivered there. So a value that is written in CBOR and fits the
codec is read back as its normal form, and the normal form is written as the same bytes.
-/
namespace TypedRecord

namespace Cbor.Reader

/-- The run from a place that wants an item that is no key. -/
theorem run_item {frames : List Frame} {head : Head} {state : State} (notKey : atKey frames = false)
    (stepped : itemStep frames head = .ok state) (rest : List Head) :
    run (.item frames) (head :: rest) = run state rest := by
  have step_eq : step (.item frames) head = .ok state := by
    rw [step, notKey]
    exact stepped
  rw [run, step_eq]

/-- The step over a natural number. -/
theorem itemStep_natural {number : Nat} (fits : number < 2 ^ 64) (frames : List Frame) :
    itemStep frames (.natural number) =
      .ok (deliver (Value.ofUInt64 (UInt64.ofNat number)) frames) := by
  rw [itemStep, uint64?_eq_some fits]

/-- The step over a signed integer. -/
theorem itemStep_ofInt (number : Int64) (frames : List Frame) :
    itemStep frames (Head.ofInt number.toInt) = .ok (deliver (.int number) frames) := by
  have low := number.le_toInt
  have high := number.toInt_lt
  rw [Head.ofInt]
  split
  · next positive => rw [itemStep_natural (by omega), Value.ofUInt64_ofNat positive]
  · next negative =>
    have same : -1 - (((-1 - number.toInt).toNat : Nat) : Int) = number.toInt := by omega
    rw [itemStep, same, int64?_toInt]

/-- The step into an array that is not too deep and for whose items there is room. -/
theorem itemStep_array {length : Nat} {frames : List Frame} (shallow : frames.length < maxLevels)
    (reserved : length * itemRoom ≤ maxRoom) :
    itemStep frames (.array (some length)) = .ok (if length = 0 then deliver (.list []) frames
      else .item (.list (some length) [] :: frames)) := by
  have opens : ∀ state, opened frames state = .ok state := fun state =>
    if_neg (Nat.not_le_of_lt shallow)
  have room : reservation (some length) * itemRoom ≤ maxRoom := reserved
  cases length with
  | zero =>
    simp only [itemStep, opens, bind, Except.bind, if_pos room, ↓reduceIte]
  | succ length =>
    simp only [itemStep, opens, bind, Except.bind, if_pos room, Nat.succ_ne_zero, ↓reduceIte]

/-- The step into a map that is not too deep. -/
theorem itemStep_map {length : Nat} {frames : List Frame} (shallow : frames.length < maxLevels) :
    itemStep frames (.map (some length)) = .ok (if length = 0 then deliver (.map []) frames
      else .item (.map (some length) [] none :: frames)) := by
  have opens : ∀ state, opened frames state = .ok state := fun state =>
    if_neg (Nat.not_le_of_lt shallow)
  cases length with
  | zero => simp only [itemStep, opens, ↓reduceIte]
  | succ length => simp only [itemStep, opens, Nat.succ_ne_zero, ↓reduceIte]

/-- The heads of items lead from an open list to the delivery of the list. -/
theorem run_items {items : List Value} {frames : List Frame}
    (each : ∀ item ∈ items, ∀ remaining before rest,
      run (.item (.list remaining before :: frames)) (item.heads ++ rest) =
        run (deliver (item.normal .cbor) (.list remaining before :: frames)) rest)
    (some_item : items ≠ []) (before : List Value) (rest : List Head) :
    run (.item (.list (some items.length) before :: frames)) (Value.itemHeads items ++ rest) =
      run (deliver (.list (before.reverse ++ items.map (Value.normal .cbor))) frames) rest := by
  induction items generalizing before with
  | nil => exact absurd rfl some_item
  | cons item later ih =>
    obtain ⟨first, others⟩ := List.forall_mem_cons.mp each
    rw [Value.itemHeads, List.append_assoc, List.length_cons, first, List.map_cons]
    cases later with
    | nil => simp [deliver, after, Value.itemHeads]
    | cons next further =>
      have last := ih others (List.cons_ne_nil _ _) (item.normal .cbor :: before)
      rw [List.reverse_cons, List.append_assoc, List.singleton_append] at last
      rw [← last]
      rfl

/-- The heads of entries lead from an open map to the delivery of the map. -/
theorem run_entries {entries : Mapping} {frames : List Frame}
    (each : ∀ entry ∈ entries, ∀ remaining before key rest,
      run (.item (.map remaining before (some key) :: frames)) (entry.2.heads ++ rest) =
        run (deliver (entry.2.normal .cbor) (.map remaining before (some key) :: frames)) rest)
    (some_entry : entries ≠ []) (before : Mapping) (rest : List Head) :
    run (.item (.map (some entries.length) before none :: frames))
        (Value.entryHeads entries ++ rest) =
      run (deliver (.map (Entries.overlay before
        (Entries.mapValues (Value.normal .cbor) entries))) frames) rest := by
  -- The last entry delivers the map, so there is no step over an empty rest.
  induction entries generalizing before with
  | nil => exact absurd rfl some_entry
  | cons entry later ih =>
    obtain ⟨key, value⟩ := entry
    have keyed : step (.item (.map (some (later.length + 1)) before none :: frames))
        (.text (Utf8.encode key)) =
          .ok (.item (.map (some (later.length + 1)) before (some key) :: frames)) := by
      simp only [step, atKey, ↓reduceIte, keyStep, Utf8.decode?_encode, deliverKey]
    obtain ⟨first, others⟩ := List.forall_mem_cons.mp each
    rw [Value.entryHeads, List.cons_append, List.append_assoc, List.length_cons, run, keyed]
    simp only
    rw [first]
    cases later with
    | nil => rfl
    | cons next further => exact ih others (List.cons_ne_nil _ _) _

/-- The heads of a value lead from a place that wants an item to the delivery of its normal form,
unless the value nests too deep for the place. -/
theorem run_heads {value : Value} (held : value.InMemory) {frames : List Frame}
    (notKey : atKey frames = false) (room : frames.length + value.depth ≤ maxLevels)
    (rest : List Head) :
    run (.item frames) (value.heads ++ rest) = run (deliver (value.normal .cbor) frames) rest := by
  induction value using Value.induction generalizing frames rest with
  | null | bool _ | float _ | blob _ => exact run_item notKey rfl rest
  | int number => exact run_item notKey (itemStep_ofInt number frames) rest
  | uint number =>
    have stepped := itemStep_natural number.toNat_lt frames
    rw [UInt64.ofNat_toNat, Value.ofUInt64_eq_normal] at stepped
    exact run_item notKey stepped rest
  | timestamp time => exact run_item notKey (itemStep_ofInt time.millis frames) rest
  | text content =>
    have stepped : itemStep frames (.text (Utf8.encode content)) =
        .ok (deliver (.text content) frames) := by
      rw [itemStep, Utf8.decode?_encode]
    exact run_item notKey stepped rest
  | list items ih =>
    rw [Value.depth] at room
    have opening := itemStep_array (by omega : frames.length < maxLevels) held.addressable.1
    rw [Value.heads, List.cons_append, run_item notKey opening, Value.normal_list]
    cases items with
    | nil => rfl
    | cons first others =>
      have nonempty : (first :: others).length ≠ 0 := Nat.succ_ne_zero _
      rw [if_neg nonempty]
      apply run_items _ (List.cons_ne_nil _ _) []
      intro item member remaining before rest
      have below :=
        Value.levelsItems_le_iff.mp (Nat.le_of_eq (Value.levelsItems_cbor _)) item member
      rw [Value.levels_cbor] at below
      refine ih item member (held.item member) rfl ?_ rest
      rw [List.length_cons]
      omega
  | map entries ih =>
    rw [Value.depth] at room
    have opening := @itemStep_map entries.length frames (by omega)
    have sorted : Entries.Sorted (Entries.mapValues (Value.normal .cbor) entries) :=
      Entries.sorted_mapValues.mpr held.sorted.1
    rw [Value.heads, List.cons_append, run_item notKey opening, Value.normal_map,
      ← sorted.ofList_self]
    cases entries with
    | nil => rfl
    | cons first others =>
      have nonempty : (first :: others).length ≠ 0 := Nat.succ_ne_zero _
      rw [if_neg nonempty]
      apply run_entries _ (List.cons_ne_nil _ _) []
      intro entry member remaining before key rest
      have below :=
        Value.levelsEntries_le_iff.mp (Nat.le_of_eq (Value.levelsEntries_cbor _)) entry member
      rw [Value.levels_cbor] at below
      refine ih entry member (held.entry member) rfl ?_ rest
      rw [List.length_cons]
      omega

end Cbor.Reader

namespace Value

/-- An integer is written like the natural number it is. -/
theorem integerBytes_ofInt {number : Nat} (small : number < 2 ^ 63) :
    Cbor.Head.integerBytes (Int64.ofInt number).toInt = Cbor.Head.argumentBytes 0 number := by
  have same : (Int64.ofInt number).toInt = number := Int64.toInt_ofInt_of_le (by omega) (by omega)
  rw [same, Cbor.Head.integerBytes, if_pos (Int.natCast_nonneg number), Int.toNat_natCast]

/-- The normal form of a value is written as the same bytes. -/
theorem toCbor_normal (value : Value) : (value.normal .cbor).toCbor = value.toCbor := by
  induction value using Value.induction with
  | null | bool _ | int _ | float _ | text _ | blob _ | timestamp _ => rfl
  | uint number =>
    rw [normal]
    split
    · next small => rw [toCbor, toCbor, integerBytes_ofInt small]
    · rfl
  | list items ih =>
    have inner : itemsCbor (items.map (normal .cbor)) = itemsCbor items := by
      induction items with
      | nil => rfl
      | cons item rest rest_ih =>
        obtain ⟨first, others⟩ := List.forall_mem_cons.mp ih
        rw [List.map_cons, itemsCbor, itemsCbor, first, rest_ih others]
    rw [normal_list, toCbor, toCbor, inner, List.length_map]
  | map entries ih =>
    have inner : entriesCbor (Entries.mapValues (normal .cbor) entries) = entriesCbor entries := by
      induction entries with
      | nil => rfl
      | cons entry rest rest_ih =>
        obtain ⟨first, others⟩ := List.forall_mem_cons.mp ih
        have later := rest_ih others
        rw [Entries.mapValues] at later ⊢
        rw [List.map_cons, entriesCbor, entriesCbor, first, later]
    have length : (Entries.mapValues (normal .cbor) entries).length = entries.length :=
      List.length_map _
    rw [normal_map, toCbor, toCbor, inner, length]

end Value

namespace Cbor

/-- The bytes of a value that does not nest too deep are read as its normal form. -/
theorem decode_toCbor {value : Value} (held : value.InMemory) (shallow : value.depth ≤ maxLevels) :
    decode value.toCbor = .ok (value.normal .cbor) := by
  have heads : Head.ofBytes value.toCbor = value.heads ++ [] := by
    have cut := Value.ofBytes_toCbor held.addressable []
    rwa [List.append_nil, Head.ofBytes] at cut
  have ran := @Reader.run_heads value held [] rfl (by simpa using shallow) []
  rw [decode, heads, ran]
  rfl

end Cbor

namespace Codec

/-- A value of at most 127 levels is written in CBOR; a codec that agrees to decode the payload
reads it as the normal form of the value. The normal form is its own normal form and is written as
the same payload. -/
theorem cbor_decode_encode (maxBytes : Nat) (value : Value) (held : value.InMemory)
    (shallow : value.depth ≤ 127) :
    ∃ payload, (Codec.mk .cbor maxBytes).encode value = .ok payload ∧
      (payload.length ≤ maxBytes →
        (Codec.mk .cbor maxBytes).decode payload = .ok (value.normal .cbor)) ∧
      (value.normal .cbor).normal .cbor = value.normal .cbor ∧
      (Codec.mk .cbor maxBytes).encode (value.normal .cbor) = .ok payload := by
  refine ⟨value.toCbor, rfl, fun fits => ?_, Value.normal_normal value, ?_⟩
  · have read : WireFormat.cbor.decode value.toCbor = .ok (value.normal .cbor) :=
      Cbor.decode_toCbor held shallow
    rw [decode, if_neg (Nat.not_lt_of_le fits), read]
  · have written : (Codec.mk .cbor maxBytes).encode (value.normal .cbor) =
        .ok (value.normal .cbor).toCbor := rfl
    rw [written, Value.toCbor_normal]

/-- A blob in a nested list survives, and a count and a time are read as signed integers. -/
theorem cbor_decode_encode_nested :
    (Codec.mk .cbor 64).decode
        (Value.map [("ids", .list [.uint 7, .blob [1, 2]]), ("time", .timestamp ⟨-1⟩)]).toCbor =
      .ok (.map [("ids", .list [.int 7, .blob [1, 2]]), ("time", .int (-1))]) := by
  have held : Value.InMemory
      (.map [("ids", .list [.uint 7, .blob [1, 2]]), ("time", .timestamp ⟨-1⟩)]) := by
    constructor
    · exact ⟨by decide, ⟨trivial, trivial, trivial⟩, trivial, trivial⟩
    · have blob : (Value.blob [1, 2]).Addressable := show 2 ≤ Cbor.maxRoom by decide
      exact ⟨by decide, by decide, ⟨by decide, trivial, blob, trivial⟩, by decide, trivial, trivial⟩
  obtain ⟨payload, written, read, -, -⟩ := cbor_decode_encode 64 _ held (by decide)
  cases written
  exact read (by decide)

end Codec

end TypedRecord
