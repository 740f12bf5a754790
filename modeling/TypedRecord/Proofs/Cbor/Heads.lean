import TypedRecord.Proofs.Binary
import TypedRecord.Proofs.Normal

/-!
# Heads from their bytes

A head that is written is the head that is cut off, whatever bytes follow it. So the bytes of a
value are cut into the heads of the value, and the rest of a text is cut as if it stood alone.
-/
namespace TypedRecord

namespace Cbor.Head

/-- The head of an integer. -/
def ofInt (number : Int) : Head :=
  if 0 ≤ number then .natural number.toNat else .negative (-1 - number).toNat

/-- Bytes in front of a count of bytes are taken as they are. -/
theorem take?_append (taken rest : List UInt8) :
    take? taken.length (taken ++ rest) = some (taken, rest) := by
  rw [take?, List.take_left, List.drop_left]
  exact if_pos rfl

/-- A number is written in as many bytes as asked for. -/
theorem length_bigEndianBytes (width number : Nat) :
    (bigEndianBytes width number).length = width := by
  induction width generalizing number with
  | zero => rfl
  | succ width ih => rw [bigEndianBytes, List.length_append, ih, List.length_singleton]

/-- A number that fits the width is read back from its bytes. -/
theorem bigEndian_bigEndianBytes (width number : Nat) (fits : number < 2 ^ (8 * width)) :
    bigEndian (bigEndianBytes width number) = number := by
  induction width generalizing number with
  | zero =>
    have zero : number = 0 := by simpa using fits
    subst zero
    rfl
  | succ width ih =>
    have upper : number / 256 < 2 ^ (8 * width) := by
      have split : 2 ^ (8 * (width + 1)) = 2 ^ (8 * width) * 256 := by
        rw [Nat.mul_succ, Nat.pow_add]
      omega
    have lower : (UInt8.ofNat (number % 256)).toNat = number % 256 :=
      UInt8.toNat_ofNat_of_lt' (Nat.mod_lt _ (by decide))
    have joined : bigEndian (bigEndianBytes (width + 1) number) =
        bigEndian (bigEndianBytes width (number / 256)) * 256 + number % 256 := by
      rw [bigEndian, bigEndianBytes, List.foldl_append, List.foldl_cons, List.foldl_nil, lower]
      rfl
    rw [joined, ih _ upper]
    omega

/-- A word that fits its width is read back in front of any bytes. -/
theorem word?_bigEndianBytes {width number : Nat} (fits : number < 2 ^ (8 * width))
    (rest : List UInt8) :
    word? width (bigEndianBytes width number ++ rest) = some (number, rest) := by
  have taken := take?_append (bigEndianBytes width number) rest
  rw [length_bigEndianBytes] at taken
  have value := bigEndian_bigEndianBytes width number fits
  simp only [word?, taken, Option.map_some, value]

/-- An argument is written behind the low bits that say its width. -/
theorem argument?_argumentBytes (major : Nat) {argument : Nat} (fits : argument < 2 ^ 64) :
    ∃ low tail, argumentBytes major argument = firstByte major low :: tail ∧ low < openEnded ∧
      ∀ rest, argument? low (tail ++ rest) = some (argument, rest) := by
  rw [argumentBytes]
  split
  · next tiny =>
    exact ⟨argument, [], rfl, by rw [openEnded]; omega, fun rest => if_pos tiny⟩
  · split
    · next byte => exact ⟨24, _, rfl, by decide, @word?_bigEndianBytes 1 argument byte⟩
    · split
      · next short => exact ⟨25, _, rfl, by decide, @word?_bigEndianBytes 2 argument short⟩
      · split
        · next long => exact ⟨26, _, rfl, by decide, @word?_bigEndianBytes 4 argument long⟩
        · exact ⟨27, _, rfl, by decide, @word?_bigEndianBytes 8 argument fits⟩

/-- A first byte says its major type. -/
theorem firstByte_div {major low : Nat} (majorFits : major < 8) (lowFits : low ≤ openEnded) :
    (firstByte major low).toNat / 32 = major := by
  have small : low < 32 := Nat.lt_succ_of_le lowFits
  rw [firstByte, UInt8.toNat_ofNat_of_lt' (by rw [UInt8.size]; omega)]
  omega

/-- A first byte says its low bits. -/
theorem firstByte_mod {major low : Nat} (majorFits : major < 8) (lowFits : low ≤ openEnded) :
    (firstByte major low).toNat % 32 = low := by
  have small : low < 32 := Nat.lt_succ_of_le lowFits
  rw [firstByte, UInt8.toNat_ofNat_of_lt' (by rw [UInt8.size]; omega)]
  omega

/-- A head is cut off in front of the heads of the rest. -/
theorem ofBytes_cons {byte : UInt8} {after rest : List UInt8} {head : Head}
    (read : after? byte after = some (head, rest)) :
    ofBytes (byte :: after) = head :: ofBytes rest := by
  rw [ofBytes]
  split
  · next refused => simp [read] at refused
  · next found =>
    rw [read] at found
    cases found
    rfl

/-- A head with an argument is cut off when its first byte makes it of the argument. -/
theorem ofBytes_argumentBytes {major argument : Nat} (majorFits : major < 8)
    (fits : argument < 2 ^ 64) {head : Head} {content rest : List UInt8}
    (read : ∀ low, low < openEnded → ∀ tail, argument? low tail = some (argument, content) →
      ∀ byte : UInt8, byte.toNat / 32 = major → byte.toNat % 32 = low →
        after? byte tail = some (head, rest)) :
    ofBytes (argumentBytes major argument ++ content) = head :: ofBytes rest := by
  obtain ⟨low, tail, bytes, lowFits, counted⟩ := argument?_argumentBytes major fits
  rw [bytes, List.cons_append]
  apply ofBytes_cons
  exact read low lowFits _ (counted content) _ (firstByte_div majorFits (Nat.le_of_lt lowFits))
    (firstByte_mod majorFits (Nat.le_of_lt lowFits))

/-- The head of a natural number. -/
theorem ofBytes_natural {number : Nat} (fits : number < 2 ^ 64) (rest : List UInt8) :
    ofBytes (argumentBytes 0 number ++ rest) = .natural number :: ofBytes rest := by
  apply ofBytes_argumentBytes (by decide) fits
  intro low lowFits tail counted byte major lower
  simp only [after?, major, lower, counted, Option.map_some]

/-- The head of an integer below zero. -/
theorem ofBytes_negative {number : Nat} (fits : number < 2 ^ 64) (rest : List UInt8) :
    ofBytes (argumentBytes 1 number ++ rest) = .negative number :: ofBytes rest := by
  apply ofBytes_argumentBytes (by decide) fits
  intro low lowFits tail counted byte major lower
  simp only [after?, major, lower, counted, Option.map_some]

/-- The head of an integer of 64 bits. -/
theorem ofBytes_integer (number : Int64) (rest : List UInt8) :
    ofBytes (integerBytes number.toInt ++ rest) = ofInt number.toInt :: ofBytes rest := by
  have low := number.le_toInt
  have high := number.toInt_lt
  rw [integerBytes, ofInt]
  split
  · exact ofBytes_natural (by omega) rest
  · exact ofBytes_negative (by omega) rest

/-- The content of a string of a known length is what follows its head. -/
theorem content?_append {major low : Nat} (lowFits : low < openEnded)
    {tail content rest : List UInt8}
    (counted : argument? low tail = some (content.length, content ++ rest)) :
    content? major low tail = some (content, rest) := by
  rw [content?, if_neg (Nat.ne_of_lt lowFits)]
  simp only [counted, take?_append]

/-- The head of a byte string. -/
theorem ofBytes_bytes {content : List UInt8} (fits : content.length < 2 ^ 64) (rest : List UInt8) :
    ofBytes (argumentBytes 2 content.length ++ (content ++ rest)) =
      .bytes content :: ofBytes rest := by
  apply ofBytes_argumentBytes (by decide) fits
  intro low lowFits tail counted byte major lower
  simp only [after?, major, lower, content?_append lowFits counted, Option.map_some]

/-- The head of a text. -/
theorem ofBytes_text {content : List UInt8} (fits : content.length < 2 ^ 64) (rest : List UInt8) :
    ofBytes (argumentBytes 3 content.length ++ (content ++ rest)) =
      .text content :: ofBytes rest := by
  apply ofBytes_argumentBytes (by decide) fits
  intro low lowFits tail counted byte major lower
  simp only [after?, major, lower, content?_append lowFits counted, Option.map_some]

/-- The length of a container is what its head says. -/
theorem length?_eq {low length : Nat} (lowFits : low < openEnded) {tail rest : List UInt8}
    (counted : argument? low tail = some (length, rest)) :
    length? low tail = some (some length, rest) := by
  rw [length?, if_neg (Nat.ne_of_lt lowFits), counted, Option.map_some]

/-- The head of an array. -/
theorem ofBytes_array {length : Nat} (fits : length < 2 ^ 64) (rest : List UInt8) :
    ofBytes (argumentBytes 4 length ++ rest) = .array (some length) :: ofBytes rest := by
  apply ofBytes_argumentBytes (by decide) fits
  intro low lowFits tail counted byte major lower
  simp only [after?, major, lower, length?_eq lowFits counted, Option.map_some]

/-- The head of a map. -/
theorem ofBytes_map {length : Nat} (fits : length < 2 ^ 64) (rest : List UInt8) :
    ofBytes (argumentBytes 5 length ++ rest) = .map (some length) :: ofBytes rest := by
  apply ofBytes_argumentBytes (by decide) fits
  intro low lowFits tail counted byte major lower
  simp only [after?, major, lower, length?_eq lowFits counted, Option.map_some]

/-- The heads of the last major type. -/
theorem ofBytes_simple {low : Nat} (lowFits : low ≤ openEnded) {tail rest : List UInt8}
    {head : Head} (read : simple? low tail = some (head, rest)) :
    ofBytes (firstByte 7 low :: tail) = head :: ofBytes rest := by
  apply ofBytes_cons
  simp only [after?, firstByte_div (by decide : 7 < 8) lowFits,
    firstByte_mod (by decide : 7 < 8) lowFits, read]

/-- A number is read back from its word in a format that holds it. -/
theorem float?_toBits {format : BinaryFormat} {width : Nat} (narrow : Binary format)
    (fraction : 2 ≤ format.binade) (room : 2 * format.signWeight = 2 ^ (8 * width))
    (rest : List UInt8) :
    float? format width (bigEndianBytes width narrow.toBits ++ rest) =
      some (.float narrow.convert, rest) := by
  have fits : narrow.toBits < 2 ^ (8 * width) := room ▸ Binary.toBits_lt narrow
  simp only [float?, word?_bigEndianBytes fits rest, Option.map_some,
    Binary.ofBits_toBits narrow fraction]

/-- The head of a binary number, in the width it is written in. -/
theorem ofBytes_float (number : Double) (rest : List UInt8) :
    ofBytes (floatBytes number ++ rest) = .float number :: ofBytes rest := by
  simp only [floatBytes]
  split
  · next half =>
    have read := float?_toBits (number.convert : Binary .half) (by decide)
      (by decide : _ = 2 ^ (8 * 2)) rest
    rw [half] at read
    exact ofBytes_simple (by decide : 25 ≤ openEnded) read
  · split
    · next single =>
      have read := float?_toBits (number.convert : Binary .single) (by decide)
        (by decide : _ = 2 ^ (8 * 4)) rest
      rw [single] at read
      exact ofBytes_simple (by decide : 26 ≤ openEnded) read
    · have read := float?_toBits number (by decide) (by decide : _ = 2 ^ (8 * 8)) rest
      rw [Binary.convert_self] at read
      exact ofBytes_simple (by decide : 27 ≤ openEnded) read

end Cbor.Head

namespace Value

open Cbor (Head)

mutual

/-- The heads of a value. -/
def heads : Value → List Head
  | .null => [.null]
  | .bool truth => [.bool truth]
  | .int number => [Head.ofInt number.toInt]
  | .uint number => [.natural number.toNat]
  | .float number => [.float number]
  | .text content => [.text (Utf8.encode content)]
  | .blob bytes => [.bytes bytes]
  | .timestamp time => [Head.ofInt time.millis.toInt]
  | .list items => .array (some items.length) :: itemHeads items
  | .map entries => .map (some entries.length) :: entryHeads entries

/-- The heads of items. -/
def itemHeads : List Value → List Head
  | [] => []
  | item :: rest => item.heads ++ itemHeads rest

/-- The heads of entries, each key before its value. -/
def entryHeads : List (String × Value) → List Head
  | [] => []
  | (key, value) :: rest => .text (Utf8.encode key) :: (value.heads ++ entryHeads rest)

end

/-- What can be addressed is counted by 64 bits. -/
theorem maxRoom_lt {length : Nat} (fits : length ≤ Cbor.maxRoom) : length < 2 ^ 64 := by
  rw [Cbor.maxRoom] at fits
  omega

/-- The head of a text with its content. -/
theorem ofBytes_textCbor {content : String} (fits : (Utf8.encode content).length ≤ Cbor.maxRoom)
    (rest : List UInt8) :
    Head.ofBytes (textCbor content ++ rest) =
      .text (Utf8.encode content) :: Head.ofBytes rest := by
  rw [textCbor, List.append_assoc, Head.ofBytes_text (maxRoom_lt fits)]

/-- The bytes of items are cut into their heads when those of each item are. -/
theorem ofBytes_itemsCbor {items : List Value}
    (each : ∀ item ∈ items, ∀ rest, Head.ofBytes (item.toCbor ++ rest) =
      item.heads ++ Head.ofBytes rest)
    (rest : List UInt8) :
    Head.ofBytes (itemsCbor items ++ rest) = itemHeads items ++ Head.ofBytes rest := by
  induction items with
  | nil => rfl
  | cons item later ih =>
    obtain ⟨first, others⟩ := List.forall_mem_cons.mp each
    rw [itemsCbor, itemHeads, List.append_assoc, List.append_assoc, first, ih others]

/-- The bytes of entries are cut into their heads when those of each value are. -/
theorem ofBytes_entriesCbor {entries : Mapping}
    (each : ∀ entry ∈ entries, (Utf8.encode entry.1).length ≤ Cbor.maxRoom ∧
      ∀ rest, Head.ofBytes (entry.2.toCbor ++ rest) = entry.2.heads ++ Head.ofBytes rest)
    (rest : List UInt8) :
    Head.ofBytes (entriesCbor entries ++ rest) = entryHeads entries ++ Head.ofBytes rest := by
  induction entries with
  | nil => rfl
  | cons entry later ih =>
    obtain ⟨key, value⟩ := entry
    obtain ⟨⟨keyRoom, first⟩, others⟩ := List.forall_mem_cons.mp each
    rw [entriesCbor, entryHeads, List.append_assoc, List.append_assoc, ofBytes_textCbor keyRoom,
      first, ih others, List.cons_append, List.append_assoc]

/-- The bytes of an addressable value are cut into its heads. -/
theorem ofBytes_toCbor {value : Value} (addressable : value.Addressable) (rest : List UInt8) :
    Head.ofBytes (value.toCbor ++ rest) = value.heads ++ Head.ofBytes rest := by
  induction value using Value.induction generalizing rest with
  | null => exact Head.ofBytes_simple (by decide : 22 ≤ Head.openEnded) rfl
  | bool truth =>
    cases truth with
    | false => exact Head.ofBytes_simple (by decide : 20 ≤ Head.openEnded) rfl
    | true => exact Head.ofBytes_simple (by decide : 21 ≤ Head.openEnded) rfl
  | int number => exact Head.ofBytes_integer number rest
  | uint number => exact Head.ofBytes_natural number.toNat_lt rest
  | float number => exact Head.ofBytes_float number rest
  | text content => exact ofBytes_textCbor addressable rest
  | blob bytes =>
    rw [toCbor, List.append_assoc, Head.ofBytes_bytes (maxRoom_lt addressable)]
    rfl
  | timestamp time => exact Head.ofBytes_integer time.millis rest
  | list items ih =>
    have inner := addressableItems_iff.mp addressable.2
    have items_cut := ofBytes_itemsCbor fun item member => ih item member (inner item member)
    -- An item takes room of its own, so the count of the items is far below the word.
    have length : items.length < 2 ^ 64 := by
      have room := addressable.1
      simp only [Cbor.itemRoom, Cbor.maxRoom] at room
      omega
    rw [toCbor, heads, List.append_assoc, Head.ofBytes_array length, items_cut, List.cons_append]
  | map entries ih =>
    have inner := addressableEntries_iff.mp addressable.2
    have entries_cut := ofBytes_entriesCbor fun entry member =>
      ⟨(inner entry member).1, ih entry member (inner entry member).2⟩
    rw [toCbor, heads, List.append_assoc, Head.ofBytes_map (maxRoom_lt addressable.1), entries_cut,
      List.cons_append]

end Value

end TypedRecord
