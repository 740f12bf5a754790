import TypedRecord.Json.Term

/-!
# JSON tokens

A token is written in one way, and a text is cut into tokens by its first characters alone, blanks
between tokens aside. Cutting ends because every token takes at least one character.
-/
namespace TypedRecord.Json

/-- A token of a JSON text. -/
inductive Token where
  /-- An opening bracket. -/
  | openArray
  /-- A closing bracket. -/
  | closeArray
  /-- An opening brace. -/
  | openObject
  /-- A closing brace. -/
  | closeObject
  /-- A colon. -/
  | colon
  /-- A comma. -/
  | comma
  /-- The literal null. -/
  | null
  /-- A truth literal. -/
  | bool (truth : Bool)
  /-- A number. -/
  | number (numeral : Numeral)
  /-- A string. -/
  | string (pieces : List Piece)
deriving DecidableEq

namespace Token

/-- The characters between tokens. -/
def isBlank (character : Char) : Bool :=
  character = ' ' || character = '\n' || character = '\r' || character = '\t'

/-- The letter of a short escape. -/
def escapeLetter (character : Char) : Char :=
  if character = '\x08' then 'b'
  else if character = '\x0c' then 'f'
  else if character = '\n' then 'n'
  else if character = '\r' then 'r'
  else if character = '\t' then 't'
  else character

/-- The character of a short escape. -/
def ofEscapeLetter? : Char → Option Char
  | '"' => some '"'
  | '\\' => some '\\'
  | '/' => some '/'
  | 'b' => some '\x08'
  | 'f' => some '\x0c'
  | 'n' => some '\n'
  | 'r' => some '\r'
  | 't' => some '\t'
  | _ => none

/-- The character of a hexadecimal digit; letters are small. -/
def hexDigit (digit : Nat) : Char := Char.ofNat (if digit < 10 then 48 + digit else 87 + digit)

/-- The hexadecimal digit of a character; letters may be small or capital. -/
def ofHexDigit? (character : Char) : Option Nat :=
  let code := character.toNat
  if 48 ≤ code ∧ code < 58 then some (code - 48)
  else if 97 ≤ code ∧ code < 103 then some (code - 87)
  else if 65 ≤ code ∧ code < 71 then some (code - 55)
  else none

/-- The unit of four hexadecimal digits. -/
def unit? (first second third fourth : Char) : Option UInt16 := do
  let first ← ofHexDigit? first
  let second ← ofHexDigit? second
  let third ← ofHexDigit? third
  let fourth ← ofHexDigit? fourth
  some (UInt16.ofNat (((first * 16 + second) * 16 + third) * 16 + fourth))

/-- The pieces of a string after its opening quote, and the text after its closing quote. -/
def pieces? : List Char → Option (List Piece × List Char)
  | [] => none
  | '"' :: rest => some ([], rest)
  | '\\' :: 'u' :: first :: second :: third :: fourth :: rest =>
    match unit? first second third fourth, pieces? rest with
    | some code, some (pieces, after) => some (.unit code :: pieces, after)
    | _, _ => none
  | '\\' :: letter :: rest =>
    match ofEscapeLetter? letter, pieces? rest with
    | some character, some (pieces, after) => some (.short character :: pieces, after)
    | _, _ => none
  | character :: rest =>
    match pieces? rest with
    | some (pieces, after) => some (.plain character :: pieces, after)
    | none => none

/-- The digits of an optional fraction, and the text after it. -/
def fraction? : List Char → Option (List Digit × List Char)
  | '.' :: rest =>
    match Digits.span rest with
    | ([], _) => none
    | (digits, after) => some (digits, after)
  | text => some ([], text)

/-- A power of ten after its letter. -/
def power? (text : List Char) : Option (Int × List Char) :=
  let (negative, digits) : Bool × List Char := match text with
    | '-' :: rest => (true, rest)
    | '+' :: rest => (false, rest)
    | rest => (false, rest)
  match Digits.span digits with
  | ([], _) => none
  | (digits, after) =>
    let power : Int := Digits.value digits
    some (if negative then -power else power, after)

/-- An optional power of ten, and the text after it. -/
def exponent? : List Char → Option (Option Int × List Char)
  | 'e' :: rest | 'E' :: rest => (power? rest).map fun (power, after) => (some power, after)
  | text => some (none, text)

/-- A number after its sign. No digit follows a leading zero. -/
def numeral? (negative : Bool) (text : List Char) : Option (Numeral × List Char) :=
  let (whole, rest) := Digits.span text
  if whole = [] ∨ (whole.head? = some 0 ∧ 1 < whole.length) then none
  else match fraction? rest with
    | none => none
    | some (fraction, rest) =>
      match exponent? rest with
      | none => none
      | some (exponent, rest) =>
        some (⟨negative, Digits.value whole, fraction, exponent⟩, rest)

/-- The token at the front of a text, and the text after it. -/
def next? : List Char → Option (Token × List Char)
  | '[' :: rest => some (.openArray, rest)
  | ']' :: rest => some (.closeArray, rest)
  | '\x7b' :: rest => some (.openObject, rest)
  | '\x7d' :: rest => some (.closeObject, rest)
  | ':' :: rest => some (.colon, rest)
  | ',' :: rest => some (.comma, rest)
  | 'n' :: 'u' :: 'l' :: 'l' :: rest => some (.null, rest)
  | 't' :: 'r' :: 'u' :: 'e' :: rest => some (.bool true, rest)
  | 'f' :: 'a' :: 'l' :: 's' :: 'e' :: rest => some (.bool false, rest)
  | '"' :: rest => (pieces? rest).map fun (pieces, after) => (.string pieces, after)
  | '-' :: rest => (numeral? true rest).map fun (numeral, after) => (.number numeral, after)
  | text => (numeral? false text).map fun (numeral, after) => (.number numeral, after)

/-- A run of digits takes no more than the text. -/
theorem length_span (text : List Char) : (Digits.span text).2.length ≤ text.length := by
  induction text with
  | nil => simp [Digits.span]
  | cons c rest ih =>
    rw [Digits.span]
    split
    · simp only [List.length_cons]; omega
    · simp

/-- A run of at least one digit takes at least one character. -/
theorem length_span_lt {text : List Char} (taken : (Digits.span text).1 ≠ []) :
    (Digits.span text).2.length < text.length := by
  cases text with
  | nil => simp [Digits.span] at taken
  | cons c rest =>
    rw [Digits.span] at taken ⊢
    have shorter := length_span rest
    split
    · simp only [List.length_cons]; omega
    · next refused => simp [refused] at taken

/-- The rest after a string is shorter. -/
theorem length_pieces? {text : List Char} {read : List Piece × List Char}
    (found : pieces? text = some read) : read.2.length < text.length := by
  fun_induction pieces? text generalizing read <;>
    simp_all only [reduceCtorEq, Option.some.injEq, List.length_cons] <;> subst found
  · exact Nat.lt_succ_self _
  all_goals
    next shorter =>
    have := shorter rfl
    simp only at this ⊢
    omega

/-- The rest after an optional fraction is no longer. -/
theorem length_fraction? {text : List Char} {read : List Digit × List Char}
    (found : fraction? text = some read) : read.2.length ≤ text.length := by
  unfold fraction? at found
  split at found
  · next rest =>
    have shorter := length_span rest
    split at found <;> simp_all
    subst found
    simp only
    omega
  · simp_all
    subst found
    exact Nat.le_refl _

/-- The rest after a power of ten is no longer. -/
theorem length_power? {text : List Char} {read : Int × List Char}
    (found : power? text = some read) : read.2.length ≤ text.length := by
  unfold power? at found
  split at found
  next negative digits signed =>
    have span := length_span digits
    have taken : digits.length ≤ text.length := by split at signed <;> simp_all
    split at found <;> simp_all
    subst found
    simp only
    omega

/-- The rest after an optional power of ten is no longer. -/
theorem length_exponent? {text : List Char} {read : Option Int × List Char}
    (found : exponent? text = some read) : read.2.length ≤ text.length := by
  unfold exponent? at found
  split at found
  · obtain ⟨power, read', rfl⟩ := Option.map_eq_some_iff.mp found
    have := length_power? read'
    simp only [List.length_cons]
    omega
  · obtain ⟨power, read', rfl⟩ := Option.map_eq_some_iff.mp found
    have := length_power? read'
    simp only [List.length_cons]
    omega
  · cases found
    exact Nat.le_refl _

/-- The rest after a number is shorter. -/
theorem length_numeral? {negative : Bool} {text : List Char} {read : Numeral × List Char}
    (found : numeral? negative text = some read) : read.2.length < text.length := by
  unfold numeral? at found
  have span := @length_span_lt text
  simp only at found
  split at found
  · simp at found
  · next whole =>
    split at found
    · simp at found
    · next digits rest fraction =>
      split at found
      · simp at found
      · next power after exponent =>
        cases found
        have := length_fraction? fraction
        have := length_exponent? exponent
        have := span fun empty => whole (Or.inl empty)
        simp only at *
        omega

/-- The rest after a token is shorter. -/
theorem length_next? {text : List Char} {read : Token × List Char}
    (found : next? text = some read) : read.2.length < text.length := by
  unfold next? at found
  split at found
  case h_10 =>
    obtain ⟨pieces, read', rfl⟩ := Option.map_eq_some_iff.mp found
    have := length_pieces? read'
    simp only [List.length_cons]
    omega
  case h_11 =>
    obtain ⟨pieces, read', rfl⟩ := Option.map_eq_some_iff.mp found
    have := length_numeral? read'
    simp only [List.length_cons]
    omega
  case h_12 =>
    obtain ⟨pieces, read', rfl⟩ := Option.map_eq_some_iff.mp found
    exact length_numeral? read'
  all_goals
    cases found
    simp only [List.length_cons]
    omega

/-- The tokens of a text. -/
def ofText? (text : List Char) : Option (List Token) :=
  match text with
  | [] => some []
  | character :: rest =>
    if isBlank character then ofText? rest
    else match _found : next? (character :: rest) with
      | none => none
      | some (token, after) => (ofText? after).map (token :: ·)
termination_by text.length
decreasing_by
  · exact Nat.lt_succ_self _
  · exact length_next? _found

/-- The characters of a piece of a string. -/
def pieceChars : Piece → List Char
  | .plain character => [character]
  | .short character => ['\\', escapeLetter character]
  | .unit code =>
    let code := code.toNat
    ['\\', 'u', hexDigit (code / 4096), hexDigit (code / 256 % 16), hexDigit (code / 16 % 16),
      hexDigit (code % 16)]

/-- The characters of a number. A power of ten always has a sign. -/
def numeralChars (numeral : Numeral) : List Char :=
  (if numeral.negative then ['-'] else []) ++ Digits.chars (Digits.ofNat numeral.whole)
    ++ (if numeral.fraction.isEmpty then [] else '.' :: Digits.chars numeral.fraction)
    ++ (match numeral.exponent with
      | none => []
      | some power =>
        'e' :: (if power < 0 then '-' else '+') :: Digits.chars (Digits.ofNat power.natAbs))

/-- The characters of a token. -/
def chars : Token → List Char
  | .openArray => ['[']
  | .closeArray => [']']
  | .openObject => ['\x7b']
  | .closeObject => ['\x7d']
  | .colon => [':']
  | .comma => [',']
  | .null => ['n', 'u', 'l', 'l']
  | .bool true => ['t', 'r', 'u', 'e']
  | .bool false => ['f', 'a', 'l', 's', 'e']
  | .number numeral => numeralChars numeral
  | .string pieces => '"' :: pieces.flatMap pieceChars ++ ['"']

end Token

end TypedRecord.Json
