import TypedRecord.Json.Tree
import TypedRecord.Proofs.Json.Tokens
import TypedRecord.Proofs.Normal
import TypedRecord.Proofs.Stepwise

/-!
# Texts and numbers through JSON

A text is read back from the pieces it is written with and an integer from its numeral. A finite
number is the one nearest to the numeral it is written with, which is never that of an integer; the
numeral is read in steps, and the number reads back when they lead to it.
-/
namespace TypedRecord

namespace Json.Piece

/-- A character is written as what it is read from. -/
theorem written_ofCharacter (character : Char) : (ofCharacter character).Written := by
  rw [ofCharacter]
  split
  · next escaped =>
    rcases escaped with rfl | rfl | rfl | rfl | rfl | rfl | rfl <;> rfl
  · next plain =>
    split
    · trivial
    · exact ⟨fun quote => plain (.inl quote), fun escape => plain (.inr (.inl escape))⟩

/-- The pieces of a text are written as what they are read from. -/
theorem written_ofText (text : String) : ∀ piece ∈ ofText text, piece.Written := by
  intro piece member
  obtain ⟨character, -, rfl⟩ := List.mem_map.mp member
  exact written_ofCharacter character

/-- A control character that is written as a unit is read back in front of any pieces. -/
theorem characters?_unit {code : UInt16} (control : code.toNat < 32) (rest : List Piece) :
    characters? (.unit code :: rest) =
      (characters? rest).map (Char.ofNat code.toNat :: ·) := by
  have notLeading : isLeading code = false := by
    have below : ¬ (0xD800 : UInt16) ≤ code := by
      rw [UInt16.le_iff_toNat_le]
      have bound : (0xD800 : UInt16).toNat = 0xD800 := rfl
      omega
    simp [isLeading, below]
  have notTrailing : isTrailing code = false := by
    have below : ¬ (0xDC00 : UInt16) ≤ code := by
      rw [UInt16.le_iff_toNat_le]
      have bound : (0xDC00 : UInt16).toNat = 0xDC00 := rfl
      omega
    simp [isTrailing, below]
  cases rest with
  | nil => simp [characters?, notLeading, notTrailing]
  | cons piece rest => cases piece <;> simp [characters?, notLeading, notTrailing]

/-- A character is read back in front of any pieces. -/
theorem characters?_ofCharacter (character : Char) (rest : List Piece) :
    characters? (ofCharacter character :: rest) = (characters? rest).map (character :: ·) := by
  rw [ofCharacter]
  split
  · rw [characters?]
  · split
    · next control =>
      have code : (UInt16.ofNat character.toNat).toNat = character.toNat :=
        UInt16.toNat_ofNat_of_lt' (by rw [UInt16.size]; omega)
      rw [characters?_unit (by omega), code, Char.ofNat_toNat]
    · next visible => rw [characters?, if_neg visible]

/-- Characters are read back from their pieces. -/
theorem characters?_map (characters : List Char) :
    characters? (characters.map ofCharacter) = some characters := by
  induction characters with
  | nil => rw [List.map_nil, characters?]
  | cons character rest ih => rw [List.map_cons, characters?_ofCharacter, ih, Option.map_some]

/-- A text is read back from its pieces. -/
@[simp] theorem text?_ofText (text : String) : text? (ofText text) = some text := by
  rw [text?, ofText, characters?_map, Option.map_some, String.ofList_toList]

end Json.Piece

namespace BinaryFormat

/-- Only the pattern of zero has the magnitude zero. -/
theorem units_pos {format : BinaryFormat} {pattern : Nat} (positive : 0 < pattern) :
    0 < format.units pattern := by
  rcases Nat.eq_zero_or_pos (format.units pattern) with zero | units
  · have pattern_eq := format.patternOf_units pattern
    rw [zero] at pattern_eq
    simp [patternOf, shift, Nat.log2_zero] at pattern_eq
    omega
  · exact units

end BinaryFormat

namespace Shortest

variable {format : BinaryFormat}

/-- All digits of a pattern stand for its magnitude. -/
theorem coefficient_exact (negative : Bool) (pattern : Nat) :
    (exact format negative pattern).coefficient = format.units pattern * 5 ^ format.depth := by
  have tens : 10 ^ format.depth = 5 ^ format.depth * format.one := by
    rw [BinaryFormat.one, ← Nat.mul_pow]
  have below : format.units pattern % format.one * 5 ^ format.depth < 10 ^ format.depth := by
    rw [tens, Nat.mul_comm]
    exact Nat.mul_lt_mul_of_pos_left (Nat.mod_lt _ BinaryFormat.one_pos) (Nat.pow_pos (by decide))
  have coefficient : (exact format negative pattern).coefficient =
      format.units pattern / format.one * 10 ^ format.depth +
        format.units pattern % format.one * 5 ^ format.depth := by
    simp only [exact, Numeral.coefficient, Digits.length_fixed, Digits.value_fixed below]
  rw [coefficient, tens, Nat.mul_comm (5 ^ format.depth), ← Nat.mul_assoc, ← Nat.add_mul,
    Nat.div_add_mod']

/-- All digits of a pattern read back as the pattern. -/
theorem pattern_exact (deep : 0 < format.depth) (negative : Bool) {pattern : Nat}
    (positive : 0 < pattern) (fits : pattern ≤ format.infinity) :
    (exact format negative pattern).pattern format = pattern := by
  obtain ⟨depth, depth_eq⟩ := Nat.exists_eq_add_of_le' deep
  have nonzero : format.units pattern * 5 ^ format.depth ≠ 0 :=
    Nat.mul_ne_zero (Nat.ne_of_gt (BinaryFormat.units_pos positive))
      (Nat.ne_of_gt (Nat.pow_pos (by decide)))
  have scale : (exact format negative pattern).scale = .negSucc depth := by
    simp only [exact, Numeral.scale, Digits.length_fixed, depth_eq, Option.getD_none]
    omega
  -- Neither shortcut of the conversion is taken, so the quotient is rounded.
  have notLarge : ¬ (Int.negSucc depth > 2 ^ format.exponentBits) := by
    have power : (0 : Int) ≤ 2 ^ format.exponentBits := Int.pow_nonneg (by decide)
    omega
  have notSmall : ¬ ((Nat.log2 (format.units pattern * 5 ^ format.depth) : Int) + 1 +
      Int.negSucc depth < -(format.depth + 1 : Int)) := by
    omega
  rw [Numeral.pattern, coefficient_exact, scale, BinaryFormat.nearestDecimal, if_neg nonzero,
    if_neg notLarge, if_neg notSmall]
  apply BinaryFormat.nearest_units (Nat.pow_pos (by decide)) fits
  rw [← depth_eq, BinaryFormat.one, Nat.mul_assoc, ← Nat.mul_pow]

/-- A numeral with a digit after the point is no integer. -/
theorem isInteger_of_fraction {numeral : Numeral} (point : 0 < numeral.fraction.length) :
    numeral.isInteger = false := by
  have nonempty : numeral.fraction.isEmpty = false :=
    List.isEmpty_eq_false_iff.mpr (List.ne_nil_of_length_pos point)
  rw [Numeral.isInteger, nonempty, Bool.false_and]

/-- All digits of a pattern are no integer. -/
theorem isInteger_exact (deep : 0 < format.depth) (negative : Bool) (pattern : Nat) :
    (exact format negative pattern).isInteger = false := by
  apply isInteger_of_fraction
  simp only [exact, Digits.length_fixed]
  exact deep

/-- What is written of a binary number has its sign and is no integer. -/
theorem isInteger_written (layout : NumberLayout) (negative : Bool) (coefficient : Nat)
    (scale : Int) : (written layout negative coefficient scale).isInteger = false ∧
      (written layout negative coefficient scale).negative = negative := by
  simp only [written]
  split
  · split
    · exact ⟨rfl, rfl⟩
    · refine ⟨isInteger_of_fraction ?_, rfl⟩
      rw [Digits.length_fixed]
      exact Nat.succ_pos _
  · exact ⟨by simp [Numeral.isInteger], rfl⟩

end Shortest

/-- A finite number is written as a numeral that is no integer and reads back as the number. -/
theorem Double.exists_numeral? (layout : NumberLayout) {number : Double}
    (finite : number.isFinite = true) :
    ∃ numeral, number.numeral? layout = some numeral ∧ numeral.isInteger = false ∧
      (numeral.toBinary : Double) = number := by
  cases number with
  | nan => simp [Binary.isFinite] at finite
  | signed negative pattern =>
    have below : pattern.val < BinaryFormat.double.infinity := by
      simpa [Binary.isFinite] using finite
    -- A numeral of the same sign that reads back as the pattern reads back as the number.
    have readBack : ∀ numeral : Numeral, numeral.negative = negative →
        numeral.pattern .double = pattern.val →
          (numeral.toBinary : Double) = .signed negative pattern := by
      intro numeral sign magnitude
      rw [Numeral.toBinary, sign, magnitude, Binary.ofPattern_val]
    by_cases zero : pattern.val = 0
    · refine ⟨⟨negative, 0, [0], none⟩, ?_, rfl, readBack _ rfl ?_⟩
      · simp only [Double.numeral?, ge_iff_le, Nat.not_le_of_lt below, ↓reduceIte]
        rw [if_pos zero]
      · rw [zero]
        rfl
    · simp only [Double.numeral?, ge_iff_le, Nat.not_le_of_lt below, ↓reduceIte, zero]
      refine ⟨_, rfl, ?_⟩
      -- A candidate is taken only if it reads back; with none the exact digits are written.
      cases found : List.find? _ _ with
      | none =>
        have exact_eq := Shortest.pattern_exact (by decide : 0 < BinaryFormat.double.depth) negative
          (Nat.pos_of_ne_zero zero) (Nat.le_of_lt below)
        rw [Option.getD_none]
        exact ⟨Shortest.isInteger_exact (by decide) negative _, readBack _ rfl exact_eq⟩
      | some numeral =>
        have magnitude := List.find?_some found
        simp only [decide_eq_true_eq] at magnitude
        obtain ⟨⟨coefficient, scale⟩, -, rfl⟩ := List.mem_map.mp (List.mem_of_find?_eq_some found)
        obtain ⟨noInteger, sign⟩ := Shortest.isInteger_written layout negative coefficient scale
        rw [Option.getD_some]
        exact ⟨noInteger, readBack _ sign magnitude⟩

namespace Double

/-- What the numeral of a number is read as. -/
def reread? (number : Double) : Option Double :=
  (number.numeral? Json.numberLayout).map Numeral.stepwise

/-- A number reads back when its numeral is read as the number itself. -/
def ReadsBack (number : Double) : Prop := number.reread? = some number

instance (number : Double) : Decidable number.ReadsBack := inferInstanceAs (Decidable (_ = _))

/-- A number whose numeral has digits that make a number below two to the fifty-third, the last of
which counts one of the powers of ten from -22 to 22. -/
def Short (number : Double) : Prop :=
  ∃ numeral ∈ number.numeral? Json.numberLayout,
    numeral.coefficient < 2 ^ 53 ∧ numeral.scale.natAbs ≤ 22

/-- A finite number with a short numeral reads back. -/
theorem readsBack_of_short {number : Double} (finite : number.isFinite = true)
    (short : number.Short) : number.ReadsBack := by
  obtain ⟨numeral, written, digits, near⟩ := short
  obtain ⟨other, same, -, nearest⟩ := exists_numeral? Json.numberLayout finite
  cases written.symm.trans same
  rw [ReadsBack, reread?, written, Option.map_some, Numeral.stepwise_eq_toBinary digits near,
    nearest]

/-- The largest number below one. -/
def belowOne : Double := .signed false ⟨0x3fefffffffffffff, by decide⟩

/-- The sixteen digits of the largest number below one are read as one. -/
theorem reread?_belowOne : belowOne.reread? = some (Binary.ofInt 1) := by decide +kernel

end Double

namespace Json.Number

/-- The numeral of a natural number of 64 bits is held as one. -/
theorem ofNumeral?_natural {number : Nat} (fits : number < 2 ^ 64) :
    ofNumeral? (Numeral.ofInt number) = some (.natural (UInt64.ofNat number)) := by
  have sign : decide ((number : Int) < 0) = false := decide_eq_false (by omega)
  have numeral : Numeral.ofInt number = ⟨false, number, [], none⟩ := by
    rw [Numeral.ofInt, sign, Int.natAbs_natCast]
  rw [numeral]
  exact if_pos ⟨rfl, rfl, fits⟩

/-- The numeral of a signed integer below zero is held as one. -/
theorem ofNumeral?_negative {number : Int} (low : -2 ^ 63 ≤ number) (negative : number < 0) :
    ofNumeral? (Numeral.ofInt number) = some (.negative (Int64.ofInt number)) := by
  have sign : decide (number < 0) = true := decide_eq_true negative
  have numeral : Numeral.ofInt number = ⟨true, number.natAbs, [], none⟩ := by
    rw [Numeral.ofInt, sign]
  have magnitude : -(number.natAbs : Int) = number := by omega
  have range : number.natAbs ≠ 0 ∧ number.natAbs ≤ 2 ^ 63 := by omega
  rw [numeral, ofNumeral?, if_neg fun natural => Bool.noConfusion natural.2.1,
    if_pos ⟨rfl, rfl, range⟩, magnitude]

/-- The numeral of a signed integer is read as the integer. -/
theorem read_ofInt (number : Int64) :
    (ofNumeral? (Numeral.ofInt number.toInt)).map read = some (.int number) := by
  have low := number.le_toInt
  have high := number.toInt_lt
  by_cases positive : 0 ≤ number.toInt
  · have natural := ofNumeral?_natural (by omega : number.toInt.toNat < 2 ^ 64)
    rw [Int.toNat_of_nonneg positive] at natural
    rw [natural, Option.map_some, read, Value.ofUInt64_ofNat positive]
  · rw [ofNumeral?_negative low (by omega), Option.map_some, read, Int64.ofInt_toInt]

/-- The numeral of an unsigned integer is read as its normal form. -/
theorem read_ofNat (number : UInt64) :
    (ofNumeral? (Numeral.ofInt number.toNat)).map read =
      some ((Value.uint number).normal .json) := by
  rw [ofNumeral?_natural number.toNat_lt, Option.map_some, read, UInt64.ofNat_toNat,
    Value.ofUInt64_eq_normal]

/-- A numeral that is no integer is read as what the steps come to, when that is finite. -/
theorem read_real {numeral : Numeral} (noInteger : numeral.isInteger = false) :
    (ofNumeral? numeral).map read =
      if numeral.stepwise.isFinite then some (.float numeral.stepwise) else none := by
  have real : ofNumeral? numeral =
      if numeral.stepwise.isFinite then some (.real numeral.stepwise) else none := by
    simp only [ofNumeral?, noInteger, Bool.false_eq_true, false_and, ↓reduceIte]
  rw [real]
  split <;> rfl

end Json.Number

end TypedRecord
