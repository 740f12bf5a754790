import Mathlib.Algebra.Order.Ring.Nat
import TypedRecord.Codec
import TypedRecord.Proofs.Cbor.Steps

/-!
# Room for the items of arrays

When an array is opened, room is made for as many items as its head says, before any of them is
read. The heads that are still to come pay for that room: every item of a list whose length is known
takes at least one of them. So a payload that is decoded makes room for fewer items than it has
bytes, in all its arrays together. A payload that is refused need not: an array whose items are
missing may say any length, and more room than there is can be asked for in nine bytes.
-/
namespace TypedRecord

namespace Cbor

namespace Reader

/-- The numbers of items for which a head makes room: that of an array that is no key and not too
deep. -/
def reservedBy : State → Head → List Nat
  | .item frames, .array length =>
    if atKey frames ∨ maxLevels ≤ frames.length then [] else [reservation length]
  | _, _ => []

/-- The numbers of items for which a run makes room, that of the head it ends at included. -/
def reservations : State → List Head → List Nat
  | _, [] => []
  | state, head :: rest => reservedBy state head ++ match step state head with
    | .ok next => reservations next rest
    | .error _ => []

/-- The number of items that the open lists are owed after the open item. -/
def owed : List Frame → Nat
  | [] => 0
  | .list (some remaining) _ :: frames => remaining - 1 + owed frames
  | _ :: frames => owed frames

/-- The number of items that have to follow. -/
def State.owed : State → Nat
  | .item frames => Reader.owed frames + 1
  | .complete _ => 0

/-! ### Heads pay for items -/

/-- A value that is delivered pays for the open item and for no other one. -/
theorem owed_deliver (frames : List Frame) (value : Value) :
    owed frames ≤ (deliver value frames).owed := by
  induction frames generalizing value with
  | nil => exact Nat.le_refl _
  | cons frame frames ih =>
    cases frame with
    | tag => exact ih value
    | list remaining before =>
      rcases remaining with - | - | - | remaining
      · exact Nat.le_succ _
      · rw [owed, Nat.zero_sub, Nat.zero_add]
        exact ih _
      · rw [owed, Nat.sub_self, Nat.zero_add]
        exact ih _
      · have still : (deliver value (.list (some (remaining + 2)) before :: frames)).owed =
            remaining + owed frames + 1 := rfl
        rw [still, owed]
        omega
    | map remaining before key =>
      cases key with
      | none => exact Nat.le_succ _
      | some key =>
        simp only [deliver]
        split
        · exact ih _
        · exact Nat.le_succ _

/-- A key that is delivered pays for no item. -/
theorem owed_deliverKey (frames : List Frame) (key : String) :
    owed frames ≤ (deliverKey key frames).owed := by
  induction frames with
  | nil => exact Nat.le_succ _
  | cons frame frames ih =>
    cases frame with
    | tag => exact ih
    | list _ _ | map _ _ _ => exact Nat.le_succ _

/-- A head pays for one item, and owes those it makes room for. -/
theorem owed_step {state next : State} {head : Head} (stepped : step state head = .ok next) :
    (reservedBy state head).sum + state.owed ≤ next.owed + 1 := by
  cases state with
  | complete value => cases stepped
  | item frames =>
    cases Step.of_step stepped with
    | @key _ head name place found =>
      have none : reservedBy (.item frames) head = [] := by
        cases head <;> first | rfl | cases found
      rw [none]
      simpa [State.owed] using owed_deliverKey frames name
    | @value _ head value place found =>
      have none : reservedBy (.item frames) head = [] := by
        cases head <;> first | rfl | cases found
      rw [none]
      simpa [State.owed] using owed_deliver frames value
    | @array _ length place shallow room =>
      have made : reservedBy (.item frames) (.array length) = [reservation length] := by
        rw [reservedBy, if_neg (by simp [place, shallow])]
      rw [made, List.sum_singleton]
      rcases length with - | - | length
      · simp [State.owed, owed, reservation]
      · simpa [State.owed, reservation] using owed_deliver frames (.list [])
      · simp only [State.owed, owed, reservation, Option.getD_some, Nat.succ_ne_zero,
          Option.some.injEq, ↓reduceIte]
        omega
    | @map _ length place shallow =>
      split
      · simpa [State.owed, reservedBy] using owed_deliver frames (.map [])
      · simp [State.owed, owed, reservedBy]
    | tag shallow => simp [State.owed, owed, reservedBy]
    | @endList frames before =>
      simpa [State.owed, owed, reservedBy] using owed_deliver frames (.list before.reverse)
    | @endMap frames before =>
      simpa [State.owed, owed, reservedBy] using owed_deliver frames (.map before)

/-- The heads of a run pay for the items that it makes room for. -/
theorem owed_run {heads : List Head} {state last : State} (ran : run state heads = .ok last) :
    (reservations state heads).sum + state.owed ≤ last.owed + heads.length := by
  induction heads generalizing state with
  | nil =>
    cases ran
    exact Nat.le_of_eq (Nat.zero_add _)
  | cons head rest ih =>
    rw [run] at ran
    split at ran
    · next next stepped =>
      have first := owed_step stepped
      have later := ih ran
      rw [reservations, stepped, List.sum_append, List.length_cons]
      simp only
      omega
    · cases ran

/-! ### Room that is refused -/

/-- A frame that is not opened is refused for its depth. -/
theorem opened_ne_reservation (frames : List Frame) (state : State) :
    opened frames state ≠ .error .reservation := by
  rw [opened]
  split <;> simp

/-- A key makes no room. -/
theorem keyStep_ne_reservation (frames : List Frame) (head : Head) :
    keyStep frames head ≠ .error .reservation := by
  cases head with
  | tag => exact opened_ne_reservation frames _
  | text _ | bytes _ | stop =>
    simp only [keyStep]
    split <;> simp
  | _ => simp [keyStep]

/-- An item that is no array makes no room. -/
theorem itemStep_ne_reservation {frames : List Frame} {head : Head}
    (noArray : ∀ length, head ≠ .array length) : itemStep frames head ≠ .error .reservation := by
  cases head with
  | array length => exact absurd rfl (noArray length)
  | map length => exact opened_ne_reservation frames _
  | tag => exact opened_ne_reservation frames _
  | natural _ | negative _ | text _ | stop =>
    simp only [itemStep]
    split <;> simp
  | _ => simp [itemStep]

/-- Room is refused by a step exactly when the step makes room for too many items. -/
theorem step_eq_reservation_iff {state : State} {head : Head} :
    step state head = .error .reservation ↔
      ∃ count ∈ reservedBy state head, maxRoom < count * itemRoom := by
  -- Only an array in the place of an item makes room, unless it is too deep.
  have without (refused : step state head ≠ .error .reservation)
      (none : reservedBy state head = []) : step state head = .error .reservation ↔
        ∃ count ∈ reservedBy state head, maxRoom < count * itemRoom := by
    rw [none]
    simpa using refused
  cases state with
  | complete value => exact without (by simp [step]) rfl
  | item frames =>
    cases place : atKey frames with
    | true =>
      refine without ?_ ?_
      · rw [step, place]
        exact keyStep_ne_reservation frames head
      · cases head <;> simp [reservedBy, place]
    | false =>
      have stepped : step (.item frames) head = itemStep frames head := by
        rw [step, place]
        rfl
      cases head with
      | array length =>
        rw [stepped, itemStep_array_eq]
        by_cases deep : maxLevels ≤ frames.length
        · simp [reservedBy, deep]
        · by_cases room : reservation length * itemRoom ≤ maxRoom
          · simp [reservedBy, place, deep, room]
          · simpa [reservedBy, place, deep, room] using Nat.lt_of_not_le room
      | _ => exact without (stepped ▸ itemStep_ne_reservation (by simp)) rfl

/-- Room is refused by a run exactly when it makes room for too many items somewhere. -/
theorem run_eq_reservation_iff {heads : List Head} {state : State} :
    run state heads = .error .reservation ↔
      ∃ count ∈ reservations state heads, maxRoom < count * itemRoom := by
  induction heads generalizing state with
  | nil => simp [run, reservations]
  | cons head rest ih =>
    have first := @step_eq_reservation_iff state head
    rw [run, reservations]
    cases stepped : step state head with
    | ok next =>
      rw [stepped] at first
      simp only [reduceCtorEq, false_iff, not_exists, not_and] at first
      simp only [ih, List.mem_append]
      constructor
      · rintro ⟨count, member, above⟩
        exact ⟨count, .inr member, above⟩
      · rintro ⟨count, member | member, above⟩
        · exact absurd above (first count member)
        · exact ⟨count, member, above⟩
    | error cause =>
      rw [stepped] at first
      simpa using first

end Reader

/-- A run of bytes has no more heads than bytes. -/
theorem Head.length_ofBytes (bytes : List UInt8) : (Head.ofBytes bytes).length ≤ bytes.length := by
  fun_induction Head.ofBytes bytes with
  | case1 => exact Nat.le_refl _
  | case2 byte rest unread => simp
  | case3 byte rest head after read ih =>
    have shorter := length_after? read
    simp only [List.length_cons] at shorter ⊢
    omega

/-- The numbers of items for which room is made while bytes are decoded, array by array. -/
def reservations (bytes : List UInt8) : List Nat :=
  Reader.reservations (.item []) (Head.ofBytes bytes)

/-- Bytes that are decoded make room for fewer items than there are bytes. -/
theorem sum_reservations_lt {bytes : List UInt8} {value : Value}
    (decoded : decode bytes = .ok value) : (reservations bytes).sum < bytes.length := by
  rw [decode] at decoded
  split at decoded
  · next ran =>
    have paid := Reader.owed_run ran
    have heads := Head.length_ofBytes bytes
    simp only [Reader.State.owed, Reader.owed] at paid
    rw [reservations]
    omega
  · cases decoded
  · cases decoded

/-- Bytes are refused for room exactly when they make room for too many items somewhere. -/
theorem decode_eq_reservation_iff {bytes : List UInt8} :
    decode bytes = .error .reservation ↔
      ∃ count ∈ reservations bytes, maxRoom < count * itemRoom := by
  rw [reservations, ← Reader.run_eq_reservation_iff, decode]
  cases Reader.run (.item []) (Head.ofBytes bytes) with
  | error cause => simp
  | ok last => cases last <;> simp

end Cbor

namespace Codec

/-- A payload that a codec agrees to look at makes room for fewer items than it has bytes, all its
arrays taken together, if it is decoded. It is refused for room exactly when some array of it asks
for more room than there is; under a bound for which there is room, no payload is refused so whose
arrays ask for no more items than it has bytes. -/
theorem reservations_of_fits {maxBytes : Nat} {bytes : List UInt8}
    (fits : bytes.length ≤ maxBytes) :
    (∀ value, (Codec.mk .cbor maxBytes).decode bytes = .ok value →
      (Cbor.reservations bytes).sum < bytes.length) ∧
    ((Codec.mk .cbor maxBytes).decode bytes = .error (.decode .reservation) ↔
      ∃ count ∈ Cbor.reservations bytes, Cbor.maxRoom < count * Cbor.itemRoom) ∧
    (maxBytes * Cbor.itemRoom ≤ Cbor.maxRoom →
      (∀ count ∈ Cbor.reservations bytes, count ≤ bytes.length) →
      (Codec.mk .cbor maxBytes).decode bytes ≠ .error (.decode .reservation)) := by
  have refused : (Codec.mk .cbor maxBytes).decode bytes = .error (.decode .reservation) ↔
      ∃ count ∈ Cbor.reservations bytes, Cbor.maxRoom < count * Cbor.itemRoom := by
    rw [← Cbor.decode_eq_reservation_iff, decode, if_neg (Nat.not_lt_of_le fits)]
    cases decoded : Cbor.decode bytes <;> simp [WireFormat.decode, decoded]
  refine ⟨fun value decoded => ?_, refused, fun bounded within overfull => ?_⟩
  · exact Cbor.sum_reservations_lt (decode_eq_ok_iff.mp decoded).2
  · obtain ⟨count, member, above⟩ := refused.mp overfull
    have below := Nat.mul_le_mul_right Cbor.itemRoom (Nat.le_trans (within count member) fits)
    exact Nat.not_lt_of_le (Nat.le_trans below bounded) above

/-- Nested arrays of two items, of one and of none make room for three items in four bytes. -/
theorem reservations_of_fits_nested :
    Cbor.reservations [0x82, 0x81, 0x01, 0x80] = [2, 1, 0] ∧
      (Cbor.reservations [0x82, 0x81, 0x01, 0x80]).sum < 4 := by
  have heads : Cbor.Head.ofBytes [0x82, 0x81, 0x01, 0x80] =
      [.array (some 2), .array (some 1), .natural 1, .array (some 0)] := by decide +kernel
  have decoded : (Codec.mk .cbor 4).decode [0x82, 0x81, 0x01, 0x80] =
      .ok (.list [.list [.int 1], .list []]) := by
    refine decode_eq_ok_iff.mpr ⟨by decide, ?_⟩
    rw [WireFormat.decode, Cbor.decode, heads]
    rfl
  have fits : ([0x82, 0x81, 0x01, 0x80] : List UInt8).length ≤ 4 := by decide
  refine ⟨?_, (reservations_of_fits fits).1 _ decoded⟩
  rw [Cbor.reservations, heads]
  rfl

/-- Nine bytes make room for the largest length there is, far more than they justify, and are
refused for it. -/
theorem overlong_array_reserves :
    ([0x9b, 0x7f, 0xff, 0xff, 0xff, 0xff, 0xff, 0xff, 0xff] : List UInt8).length = 9 ∧
      9 ≤ defaultMaxBytes ∧
      Cbor.reservations [0x9b, 0x7f, 0xff, 0xff, 0xff, 0xff, 0xff, 0xff, 0xff] = [2 ^ 63 - 1] ∧
      (standard .cbor).decode [0x9b, 0x7f, 0xff, 0xff, 0xff, 0xff, 0xff, 0xff, 0xff] =
        .error (.decode .reservation) := by
  have heads : Cbor.Head.ofBytes [0x9b, 0x7f, 0xff, 0xff, 0xff, 0xff, 0xff, 0xff, 0xff] =
      [.array (some (2 ^ 63 - 1))] := by decide +kernel
  have made : Cbor.reservations [0x9b, 0x7f, 0xff, 0xff, 0xff, 0xff, 0xff, 0xff, 0xff] =
      [2 ^ 63 - 1] := by
    rw [Cbor.reservations, heads]
    rfl
  have refused : Cbor.decode [0x9b, 0x7f, 0xff, 0xff, 0xff, 0xff, 0xff, 0xff, 0xff] =
      .error .reservation := by
    rw [Cbor.decode, heads]
    rfl
  refine ⟨rfl, by decide, made, ?_⟩
  rw [decode, if_neg (by decide), standard, WireFormat.decode, refused]

end Codec

end TypedRecord
