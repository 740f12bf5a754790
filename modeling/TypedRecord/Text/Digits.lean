/-!
# Decimal digits

Digits are numbers below ten, so a run of digits has no other content than its digits. Reading a
run of characters as digits refuses every character but the ten ASCII ones.
-/
namespace TypedRecord

/-- A decimal digit. -/
abbrev Digit := Fin 10

/-- There are ten of them, so there is a first one. -/
instance Digit.neZero : @NeZero Nat Zero.ofOfNat0 10 := ⟨by decide⟩

namespace Digit

/-- The character of a digit. -/
def char (digit : Digit) : Char := Char.ofNat (48 + digit.val)

/-- The digit of an ASCII digit character. -/
def ofChar? (c : Char) : Option Digit :=
  if fits : 48 ≤ c.toNat ∧ c.toNat < 58 then some ⟨c.toNat - 48, by omega⟩ else none

end Digit

namespace Digits

/-- The number a run of digits stands for, most significant first. -/
def value (digits : List Digit) : Nat :=
  digits.foldl (fun number digit => 10 * number + digit.val) 0

/-- The digits of a number without leading zeros; zero has one digit. -/
def ofNat (number : Nat) : List Digit :=
  if small : number < 10 then [⟨number, small⟩]
  else ofNat (number / 10) ++ [⟨number % 10, Nat.mod_lt _ (by decide)⟩]
termination_by number
decreasing_by omega

/-- The last `width` digits of a number, with leading zeros. -/
def fixed : (width number : Nat) → List Digit
  | 0, _ => []
  | width + 1, number => fixed width (number / 10) ++ [⟨number % 10, Nat.mod_lt _ (by decide)⟩]

/-- The characters of a run of digits. -/
def chars (digits : List Digit) : List Char := digits.map Digit.char

/-- The longest run of digits at the front of a text, and the text after it. -/
def span : List Char → List Digit × List Char
  | [] => ([], [])
  | c :: rest =>
    match Digit.ofChar? c with
    | some digit =>
      let (digits, after) := span rest
      (digit :: digits, after)
    | none => ([], c :: rest)

/-- A text of at least one digit and nothing else, as a number. -/
def parse? (text : List Char) : Option Nat :=
  match span text with
  | (digit :: digits, []) => some (value (digit :: digits))
  | _ => none

/-- An optional sign and at least one digit, as an integer. -/
def parseSigned? : List Char → Option Int
  | '-' :: rest => (parse? rest).map fun number => -(number : Int)
  | '+' :: rest => (parse? rest).map fun number => (number : Int)
  | text => (parse? text).map fun number => (number : Int)

/-- The decimal text of a number. -/
def natText (number : Nat) : String := String.ofList (chars (ofNat number))

/-- The decimal text of an integer, with a minus sign below zero. -/
def intText (number : Int) : String :=
  if number < 0 then "-" ++ natText number.natAbs else natText number.natAbs

end Digits

end TypedRecord
