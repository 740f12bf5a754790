import TypedRecord.Text.Digits

/-!
# Digits and their characters

A run of digits is read back from its characters when no digit follows, and a number is read back
from its digits, which have no leading zero unless the number is zero. A run of digits that another
character follows is no number.
-/
namespace TypedRecord

/-- A digit is read back from its character. -/
@[simp] theorem Digit.ofChar?_char (digit : Digit) : Digit.ofChar? digit.char = some digit := by
  revert digit
  decide

/-- A digit has the character it is read from. -/
theorem Digit.char_of_ofChar? {c : Char} {digit : Digit} (read : Digit.ofChar? c = some digit) :
    digit.char = c := by
  unfold Digit.ofChar? at read
  split at read
  next ascii =>
    cases read
    have code : 48 + (c.toNat - 48) = c.toNat := by omega
    rw [Digit.char, code, Char.ofNat_toNat]
  next => cases read

/-- The character of a digit is no other character. -/
theorem Digit.char_ne {c : Char} (other : Digit.ofChar? c = none) (digit : Digit) :
    digit.char ≠ c := by
  rintro rfl
  simp at other

namespace Digits

/-- A run of digits is read back in front of a text that does not start with a digit. -/
theorem span_chars (digits : List Digit) {rest : List Char} (stops : span rest = ([], rest)) :
    span (chars digits ++ rest) = (digits, rest) := by
  induction digits with
  | nil => exact stops
  | cons digit later ih =>
    have joined : chars (digit :: later) ++ rest = digit.char :: (chars later ++ rest) := rfl
    simp only [joined, span, Digit.ofChar?_char, ih]

/-- A character that is no digit ends a run of digits. -/
theorem span_cons_of_none {c : Char} {rest : List Char} (other : Digit.ofChar? c = none) :
    span (c :: rest) = ([], c :: rest) := by
  simp only [span, other]

/-- A text starts with the run of digits that is read from it. -/
theorem eq_chars_of_span {text rest : List Char} {digits : List Digit}
    (read : span text = (digits, rest)) : text = chars digits ++ rest := by
  induction text generalizing digits with
  | nil =>
    cases read
    rfl
  | cons c text ih =>
    rw [span] at read
    split at read
    next digit found =>
      obtain ⟨rfl, rfl⟩ := Prod.mk.inj read
      have run := ih rfl
      rw [chars, List.map_cons, Digit.char_of_ofChar? found, List.cons_append]
      exact congrArg (c :: ·) run
    next =>
      cases read
      rfl

/-- A run of digits that another character follows is no number. -/
theorem parse?_chars_cons (digits : List Digit) {c : Char} (other : Digit.ofChar? c = none)
    (rest : List Char) : parse? (chars digits ++ c :: rest) = none := by
  rw [parse?, span_chars digits (span_cons_of_none other)]
  cases digits <;> rfl

/-- A run of digits that another character follows is no signed number. -/
theorem parseSigned?_chars_cons {digits : List Digit} (present : digits ≠ []) {c : Char}
    (other : Digit.ofChar? c = none) (rest : List Char) :
    parseSigned? (chars digits ++ c :: rest) = none := by
  have number := parse?_chars_cons digits other rest
  obtain ⟨first, later, rfl⟩ := List.exists_cons_of_ne_nil present
  unfold parseSigned?
  split
  next text => exact absurd (List.cons.inj text).1 (first.char_ne (c := '-') rfl)
  next text => exact absurd (List.cons.inj text).1 (first.char_ne (c := '+') rfl)
  next =>
    rw [number]
    rfl

/-- The number of a run of digits with one more digit. -/
theorem value_concat (digits : List Digit) (digit : Digit) :
    value (digits ++ [digit]) = 10 * value digits + digit.val := by
  simp [value, List.foldl_append]

/-- A number is read back from its digits. -/
theorem value_ofNat (number : Nat) : value (ofNat number) = number := by
  fun_induction ofNat number with
  | case1 number small => simp [value]
  | case2 number large ih =>
    rw [value_concat, ih]
    have division := Nat.div_add_mod number 10
    exact division

/-- A number has a digit. -/
theorem ofNat_ne_nil (number : Nat) : ofNat number ≠ [] := by
  unfold ofNat
  split <;> simp

/-- A number of more than one digit does not start with a zero. -/
theorem head?_ofNat_ne_zero {number : Nat} (positive : 0 < number) :
    (ofNat number).head? ≠ some 0 := by
  fun_induction ofNat number with
  | case1 number small =>
    simp only [List.head?_cons, ne_eq, Option.some.injEq]
    intro zero
    have value := congrArg Fin.val zero
    simp only [Fin.val_zero] at value
    omega
  | case2 number large ih =>
    obtain ⟨first, later, digits⟩ := List.exists_cons_of_ne_nil (ofNat_ne_nil (number / 10))
    have same := ih (by omega)
    rw [digits, List.head?_cons] at same
    rw [digits, List.cons_append, List.head?_cons]
    exact same

/-- A number does not start with a zero unless it is zero. -/
theorem leading_ofNat (number : Nat) :
    ¬ ((ofNat number).head? = some 0 ∧ 1 < (ofNat number).length) := by
  rintro ⟨zero, long⟩
  by_cases positive : 0 < number
  · exact head?_ofNat_ne_zero positive zero
  · have none : number = 0 := by omega
    subst none
    have short : (ofNat 0).length = 1 := by
      rw [ofNat]
      rfl
    omega

/-- A number of a fixed width has as many digits. -/
theorem length_fixed (width number : Nat) : (fixed width number).length = width := by
  induction width generalizing number with
  | zero => rfl
  | succ width ih => rw [fixed, List.length_append, ih, List.length_singleton]

/-- A number that fits the width is read back from its digits. -/
theorem value_fixed {width number : Nat} (fits : number < 10 ^ width) :
    value (fixed width number) = number := by
  induction width generalizing number with
  | zero =>
    have zero : number = 0 := by simpa using fits
    subst zero
    rfl
  | succ width ih =>
    have upper : number / 10 < 10 ^ width := by
      rw [Nat.pow_succ] at fits
      omega
    rw [fixed, value_concat, ih upper]
    exact Nat.div_add_mod number 10

end Digits

end TypedRecord
