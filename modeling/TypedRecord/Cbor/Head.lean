import TypedRecord.Binary.Basic

/-!
# CBOR heads

A CBOR text is a run of heads. The head of a string carries its bytes, that of a container only how
many items follow, or that an end will be marked. A run of bytes is cut into heads up to its end or
up to the first place where no head can be read, which is a head of its own, so what comes before
that place can still be looked at in order.
-/
namespace TypedRecord.Cbor

/-- One head of a CBOR text. -/
inductive Head where
  /-- A natural number. -/
  | natural (number : Nat)
  /-- The integer `-1 - number`. -/
  | negative (number : Nat)
  /-- A byte string. -/
  | bytes (content : List UInt8)
  /-- A text by its bytes, which need not be UTF-8. -/
  | text (content : List UInt8)
  /-- An array of a number of items, or of items up to an end mark. -/
  | array (length : Option Nat)
  /-- A map of a number of entries, or of entries up to an end mark. -/
  | map (length : Option Nat)
  /-- A tag on the next item. -/
  | tag
  /-- A truth value. -/
  | bool (truth : Bool)
  /-- Null or undefined. -/
  | null
  /-- A binary number of any width. -/
  | float (number : Double)
  /-- The end mark of a container. -/
  | stop
  /-- Bytes that no head starts with. -/
  | malformed
deriving DecidableEq

namespace Head

/-- The number that bytes write, most significant first. -/
def bigEndian (bytes : List UInt8) : Nat :=
  bytes.foldl (fun number byte => number * 256 + byte.toNat) 0

/-- The low `width` bytes of a number, most significant first. -/
def bigEndianBytes : (width number : Nat) → List UInt8
  | 0, _ => []
  | width + 1, number => bigEndianBytes width (number / 256) ++ [UInt8.ofNat (number % 256)]

/-- The first `count` bytes, and the bytes after them. -/
def take? (count : Nat) (bytes : List UInt8) : Option (List UInt8 × List UInt8) :=
  let taken := bytes.take count
  if taken.length = count then some (taken, bytes.drop count) else none

/-- The number written in `width` bytes, and the bytes after it. -/
def word? (width : Nat) (bytes : List UInt8) : Option (Nat × List UInt8) :=
  (take? width bytes).map fun (word, rest) => (bigEndian word, rest)

/-- The argument of a head by the low five bits of its first byte. -/
def argument? (low : Nat) (rest : List UInt8) : Option (Nat × List UInt8) :=
  if low < 24 then some (low, rest)
  else match low with
    | 24 => word? 1 rest
    | 25 => word? 2 rest
    | 26 => word? 4 rest
    | 27 => word? 8 rest
    | _ => none

/-- The low five bits that say that an end will be marked. -/
def openEnded : Nat := 31

/-- The first byte of a head with a major type. -/
def firstByte (major low : Nat) : UInt8 := UInt8.ofNat (major * 32 + low)

/-- What is left after taking bytes is no longer. -/
theorem length_take? {count : Nat} {bytes : List UInt8} {read : List UInt8 × List UInt8}
    (found : take? count bytes = some read) : read.2.length ≤ bytes.length := by
  simp only [take?] at found
  split at found
  · cases found
    simp
  · simp at found

/-- What is left after an argument is no longer. -/
theorem length_argument? {low : Nat} {bytes : List UInt8} {read : Nat × List UInt8}
    (found : argument? low bytes = some read) : read.2.length ≤ bytes.length := by
  have word : ∀ {width}, word? width bytes = some read → read.2.length ≤ bytes.length := by
    intro width found
    obtain ⟨taken, taken?, rfl⟩ := Option.map_eq_some_iff.mp found
    exact length_take? taken?
  unfold argument? at found
  split at found
  · cases found
    exact Nat.le_refl _
  · split at found <;> first | exact word found | simp at found

/-- The joined chunks of a string up to its end mark, and the bytes after the mark. Every chunk has
the major type of the string and says its own length. -/
def chunks? (major : Nat) (bytes : List UInt8) : Option (List UInt8 × List UInt8) :=
  match bytes with
  | [] => none
  | byte :: rest =>
    if byte = 0xFF then some ([], rest)
    else if byte.toNat / 32 ≠ major then none
    else match _counted : argument? (byte.toNat % 32) rest with
      | none => none
      | some (count, rest') => match _taken : take? count rest' with
        | none => none
        | some (chunk, rest'') =>
          (chunks? major rest'').map fun (chunks, after) => (chunk ++ chunks, after)
termination_by bytes.length
decreasing_by
  have := length_argument? _counted
  have := length_take? _taken
  simp only [List.length_cons] at *
  omega

/-- What is left after chunks is no longer. -/
theorem length_chunks? {major : Nat} {bytes : List UInt8} {read : List UInt8 × List UInt8}
    (found : chunks? major bytes = some read) : read.2.length ≤ bytes.length := by
  fun_induction chunks? major bytes generalizing read with
  | case1 => simp at found
  | case2 rest => cases found; simp
  | case3 => simp at found
  | case4 => simp at found
  | case5 => simp at found
  | case6 byte rest _ _ count rest' counted chunk rest'' taken ih =>
    obtain ⟨tail, tail?, rfl⟩ := Option.map_eq_some_iff.mp found
    have := ih tail?
    have := length_argument? counted
    have := length_take? taken
    simp only [List.length_cons] at *
    omega

/-- The content of a string, of a given length or in chunks. -/
def content? (major low : Nat) (rest : List UInt8) : Option (List UInt8 × List UInt8) :=
  if low = openEnded then chunks? major rest
  else match argument? low rest with
    | none => none
    | some (count, rest) => take? count rest

/-- The length of a container, and the bytes after its head. -/
def length? (low : Nat) (rest : List UInt8) : Option (Option Nat × List UInt8) :=
  if low = openEnded then some (none, rest)
  else (argument? low rest).map fun (count, rest) => (some count, rest)

/-- A binary number of another width. -/
def float? (format : BinaryFormat) (width : Nat) (rest : List UInt8) :
    Option (Head × List UInt8) :=
  (word? width rest).map fun (bits, rest) =>
    (.float (Binary.ofBits bits : Binary format).convert, rest)

/-- A head of the last major type. -/
def simple? (low : Nat) (rest : List UInt8) : Option (Head × List UInt8) :=
  match low with
  | 20 => some (.bool false, rest)
  | 21 => some (.bool true, rest)
  | 22 | 23 => some (.null, rest)
  | 25 => float? .half 2 rest
  | 26 => float? .single 4 rest
  | 27 => float? .double 8 rest
  | 31 => some (.stop, rest)
  | _ => none

/-- What is left after a head of the last major type is no longer. -/
theorem length_simple? {low : Nat} {rest : List UInt8} {read : Head × List UInt8}
    (found : simple? low rest = some read) : read.2.length ≤ rest.length := by
  have float : ∀ {format width}, float? format width rest = some read →
      read.2.length ≤ rest.length := by
    intro format width found
    obtain ⟨bits, bits?, rfl⟩ := Option.map_eq_some_iff.mp found
    obtain ⟨word, word?, rfl⟩ := Option.map_eq_some_iff.mp bits?
    exact length_take? word?
  unfold simple? at found
  split at found <;> first
    | exact float found
    | (simp only [Option.some.injEq] at found; subst found; exact Nat.le_refl _)
    | simp at found

/-- The head of a first byte, and the bytes after the head. -/
def after? (byte : UInt8) (rest : List UInt8) : Option (Head × List UInt8) :=
  let low := byte.toNat % 32
  match byte.toNat / 32 with
  | 0 => (argument? low rest).map fun (number, rest) => (.natural number, rest)
  | 1 => (argument? low rest).map fun (number, rest) => (.negative number, rest)
  | 2 => (content? 2 low rest).map fun (content, rest) => (.bytes content, rest)
  | 3 => (content? 3 low rest).map fun (content, rest) => (.text content, rest)
  | 4 => (length? low rest).map fun (length, rest) => (.array length, rest)
  | 5 => (length? low rest).map fun (length, rest) => (.map length, rest)
  | 6 => (argument? low rest).map fun (_, rest) => (.tag, rest)
  | _ => simple? low rest

/-- What is left after a head is no longer than what followed its first byte. -/
theorem length_after? {byte : UInt8} {rest : List UInt8} {read : Head × List UInt8}
    (found : after? byte rest = some read) : read.2.length ≤ rest.length := by
  have content : ∀ {major low} {taken : List UInt8 × List UInt8},
      content? major low rest = some taken → taken.2.length ≤ rest.length := by
    intro major low taken found
    unfold content? at found
    split at found
    · exact length_chunks? found
    · split at found
      · simp at found
      · next counted =>
        have := length_argument? counted
        have := length_take? found
        simp only at *
        omega
  have length : ∀ {low} {taken : Option Nat × List UInt8},
      length? low rest = some taken → taken.2.length ≤ rest.length := by
    intro low taken found
    unfold length? at found
    split at found
    · cases found
      exact Nat.le_refl _
    · obtain ⟨counted, counted?, rfl⟩ := Option.map_eq_some_iff.mp found
      exact length_argument? counted?
  unfold after? at found
  split at found
  · obtain ⟨part, part?, rfl⟩ := Option.map_eq_some_iff.mp found
    exact length_argument? part?
  · obtain ⟨part, part?, rfl⟩ := Option.map_eq_some_iff.mp found
    exact length_argument? part?
  · obtain ⟨part, part?, rfl⟩ := Option.map_eq_some_iff.mp found
    exact content part?
  · obtain ⟨part, part?, rfl⟩ := Option.map_eq_some_iff.mp found
    exact content part?
  · obtain ⟨part, part?, rfl⟩ := Option.map_eq_some_iff.mp found
    exact length part?
  · obtain ⟨part, part?, rfl⟩ := Option.map_eq_some_iff.mp found
    exact length part?
  · obtain ⟨part, part?, rfl⟩ := Option.map_eq_some_iff.mp found
    exact length_argument? part?
  · exact length_simple? found

/-- The heads of a run of bytes, up to a place where no head can be read. -/
def ofBytes (bytes : List UInt8) : List Head :=
  match bytes with
  | [] => []
  | byte :: rest => match _read : after? byte rest with
    | none => [.malformed]
    | some (head, rest') => head :: ofBytes rest'
termination_by bytes.length
decreasing_by
  have := length_after? _read
  simp only [List.length_cons] at *
  omega

/-- The bytes of a head with a major type and an argument, which is written as short as it goes. -/
def argumentBytes (major argument : Nat) : List UInt8 :=
  if argument < 24 then [firstByte major argument]
  else if argument < 2 ^ 8 then firstByte major 24 :: bigEndianBytes 1 argument
  else if argument < 2 ^ 16 then firstByte major 25 :: bigEndianBytes 2 argument
  else if argument < 2 ^ 32 then firstByte major 26 :: bigEndianBytes 4 argument
  else firstByte major 27 :: bigEndianBytes 8 argument

/-- The bytes of a binary number, in the narrowest width that holds it exactly. -/
def floatBytes (number : Double) : List UInt8 :=
  let half : Binary .half := number.convert
  let single : Binary .single := number.convert
  if half.convert = number then firstByte 7 25 :: bigEndianBytes 2 half.toBits
  else if single.convert = number then firstByte 7 26 :: bigEndianBytes 4 single.toBits
  else firstByte 7 27 :: bigEndianBytes 8 number.toBits

/-- The bytes of an integer. -/
def integerBytes (number : Int) : List UInt8 :=
  if 0 ≤ number then argumentBytes 0 number.toNat else argumentBytes 1 (-1 - number).toNat

end Head

end TypedRecord.Cbor
