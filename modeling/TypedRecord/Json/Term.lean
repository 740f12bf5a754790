import TypedRecord.Decimal.Numeral

/-!
# JSON terms

A term is a JSON text as it is written, without blanks: numbers by their digits, strings by their
characters and escapes, objects by their members in order with repetitions. What a term means is
decided by whoever reads it, because a reader of values, of bytes and of skipped members refuse
different terms.
-/
namespace TypedRecord.Json

/-- One character or escape of a string. -/
inductive Piece where
  /-- A character that stands for itself. -/
  | plain (character : Char)
  /-- A character written as a backslash and one letter. -/
  | short (character : Char)
  /-- A 16-bit unit written as four hexadecimal digits. -/
  | unit (code : UInt16)
deriving DecidableEq

/-- A JSON text as it is written. -/
inductive Term where
  /-- The literal null. -/
  | null
  /-- One of the two truth literals. -/
  | bool (truth : Bool)
  /-- A number. -/
  | number (numeral : Numeral)
  /-- A string. -/
  | string (pieces : List Piece)
  /-- The items between brackets. -/
  | array (items : List Term)
  /-- The members between braces. -/
  | object (members : List (List Piece × Term))

namespace Piece

/-- The first unit of a pair. -/
def isLeading (code : UInt16) : Bool := 0xD800 ≤ code && code < 0xDC00

/-- The second unit of a pair. -/
def isTrailing (code : UInt16) : Bool := 0xDC00 ≤ code && code < 0xE000

/-- The character of a pair of units. -/
def paired (leading trailing : UInt16) : Char :=
  Char.ofNat (0x10000 + (leading.toNat - 0xD800) * 1024 + (trailing.toNat - 0xDC00))

/-- The characters of a string. A control character has to be escaped, and a unit of a pair has to
stand beside its other half. -/
def characters? : List Piece → Option (List Char)
  | [] => some []
  | .plain character :: rest =>
    if character.toNat < 32 then none else (characters? rest).map (character :: ·)
  | .short character :: rest => (characters? rest).map (character :: ·)
  | .unit leading :: .unit trailing :: rest =>
    if isLeading leading then
      if isTrailing trailing then (characters? rest).map (paired leading trailing :: ·) else none
    else if isTrailing leading then none
    else (characters? (.unit trailing :: rest)).map (Char.ofNat leading.toNat :: ·)
  | .unit code :: rest =>
    if isLeading code || isTrailing code then none
    else (characters? rest).map (Char.ofNat code.toNat :: ·)

/-- The text of a string. -/
def text? (pieces : List Piece) : Option String := (characters? pieces).map String.ofList

/-- The three bytes of a unit that is half of a pair. -/
def halfBytes (code : UInt16) : List UInt8 :=
  [UInt8.ofNat (0xE0 + code.toNat / 4096), UInt8.ofNat (0x80 + code.toNat / 64 % 64),
    UInt8.ofNat (0x80 + code.toNat % 64)]

/-- The bytes of a character. -/
def characterBytes (character : Char) : List UInt8 := String.utf8EncodeChar character

/-- The bytes of a unit that is not followed by its other half. -/
def unitBytes (code : UInt16) : List UInt8 :=
  if isLeading code || isTrailing code then halfBytes code
  else characterBytes (Char.ofNat code.toNat)

/-- The bytes of a string. No string is refused: a lone half of a pair has three bytes, and a
control character need not be escaped. -/
def bytes : List Piece → List UInt8
  | [] => []
  | .plain character :: rest | .short character :: rest => characterBytes character ++ bytes rest
  | .unit leading :: .unit trailing :: rest =>
    if isLeading leading && isTrailing trailing then
      characterBytes (paired leading trailing) ++ bytes rest
    else unitBytes leading ++ bytes (.unit trailing :: rest)
  | .unit code :: rest => unitBytes code ++ bytes rest

/-- Whether a string may stand where nobody reads it: only its control characters are looked at. -/
def isSkippable (pieces : List Piece) : Bool :=
  pieces.all fun piece => match piece with
    | .plain character => 32 ≤ character.toNat
    | _ => true

/-- The pieces a character is written with. -/
def ofCharacter (character : Char) : Piece :=
  if character = '"' ∨ character = '\\' ∨ character = '\x08' ∨ character = '\x0c' ∨
      character = '\n' ∨ character = '\r' ∨ character = '\t' then .short character
  else if character.toNat < 32 then .unit (UInt16.ofNat character.toNat)
  else .plain character

/-- The pieces a text is written with. -/
def ofText (text : String) : List Piece := text.toList.map ofCharacter

end Piece

namespace Term

/-- The term of an integer. -/
def ofInt (number : Int) : Term := .number (Numeral.ofInt number)

mutual

/-- Whether a term may stand where nobody reads it: its strings have no bare control characters. -/
def isSkippable : Term → Bool
  | .string pieces => Piece.isSkippable pieces
  | .array items => skippableItems items
  | .object members => skippableMembers members
  | _ => true

/-- Whether every item of a list is skippable. -/
def skippableItems : List Term → Bool
  | [] => true
  | item :: rest => item.isSkippable && skippableItems rest

/-- Whether every member of a list is skippable, its key included. -/
def skippableMembers : List (List Piece × Term) → Bool
  | [] => true
  | (key, item) :: rest =>
    Piece.isSkippable key && item.isSkippable && skippableMembers rest

end

end Term

end TypedRecord.Json
