import TypedRecord.Json.Parser
import TypedRecord.Proofs.Digits

/-!
# Tokens from their characters

A token that is written is the token that is cut off, whatever follows it; a number must not be
followed by what would continue it. So the text of a term is cut into the tokens of the term.
-/
namespace TypedRecord.Json

/-- Whether a piece is written as what it is read from: a character that stands for itself starts
neither an escape nor the end of the string, and a short escape has a letter. -/
def Piece.Written : Piece → Prop
  | .plain character => character ≠ '"' ∧ character ≠ '\\'
  | .short character => Token.ofEscapeLetter? (Token.escapeLetter character) = some character
  | .unit _ => True

namespace Token

/-- Whether a text does not continue a number in front of it. -/
def EndsNumeral (text : List Char) : Prop :=
  ∀ c, text.head? = some c → Digit.ofChar? c = none ∧ c ≠ '.' ∧ c ≠ 'e' ∧ c ≠ 'E'

/-- The end of a text ends a number. -/
theorem endsNumeral_nil : EndsNumeral [] := by
  intro c head
  simp at head

/-- A text that starts with a comma or a closing sign ends a number. -/
theorem endsNumeral_cons {c : Char} (sign : c ∈ [',', ']', '\x7d']) (rest : List Char) :
    EndsNumeral (c :: rest) := by
  intro c' head
  cases head
  simp only [List.mem_cons, List.not_mem_nil, or_false] at sign
  rcases sign with rfl | rfl | rfl <;> decide

/-- No digits stand in front of a text that ends a number. -/
theorem EndsNumeral.span {text : List Char} (ends : EndsNumeral text) :
    Digits.span text = ([], text) := by
  cases text with
  | nil => rfl
  | cons c rest => exact Digits.span_cons_of_none (ends c rfl).1

/-- The characters of an optional power of ten. -/
def exponentChars : Option Int → List Char
  | none => []
  | some power =>
    'e' :: (if power < 0 then '-' else '+') :: Digits.chars (Digits.ofNat power.natAbs)

/-- The characters of an optional fraction. -/
def fractionChars (digits : List Digit) : List Char :=
  if digits.isEmpty then [] else '.' :: Digits.chars digits

/-- A number is written as its sign, its whole part, its fraction and its power of ten. -/
theorem numeralChars_eq (numeral : Numeral) :
    numeralChars numeral = (if numeral.negative then ['-'] else []) ++
      Digits.chars (Digits.ofNat numeral.whole) ++ fractionChars numeral.fraction ++
      exponentChars numeral.exponent := by
  rw [numeralChars, fractionChars]
  cases numeral.exponent <;> rfl

/-- A power of ten is read back in front of a text that ends a number. -/
theorem power?_chars (power : Int) {rest : List Char} (ends : EndsNumeral rest) :
    power? ((if power < 0 then '-' else '+') ::
      (Digits.chars (Digits.ofNat power.natAbs) ++ rest)) = some (power, rest) := by
  have digits := Digits.span_chars (Digits.ofNat power.natAbs) ends.span
  obtain ⟨first, later, shape⟩ := List.exists_cons_of_ne_nil (Digits.ofNat_ne_nil power.natAbs)
  have value := Digits.value_ofNat power.natAbs
  -- A power without digits is refused, so the digits are shown to have a first one.
  rw [shape] at digits value
  by_cases negative : power < 0
  · have sign : -(power.natAbs : Int) = power := by omega
    simp only [if_pos negative, power?, shape, digits, value, ↓reduceIte, sign]
  · have sign : (power.natAbs : Int) = power := by omega
    simp only [if_neg negative, power?, shape, digits, value, Bool.false_eq_true, ↓reduceIte, sign]

/-- An optional power of ten is read back in front of a text that ends a number. -/
theorem exponent?_chars (exponent : Option Int) {rest : List Char} (ends : EndsNumeral rest) :
    exponent? (exponentChars exponent ++ rest) = some (exponent, rest) := by
  cases exponent with
  | none =>
    rw [exponentChars, List.nil_append]
    unfold exponent?
    split
    · exact absurd rfl (ends _ rfl).2.2.1
    · exact absurd rfl (ends _ rfl).2.2.2
    · rfl
  | some power =>
    have read := power?_chars power ends
    rw [exponentChars, List.cons_append, List.cons_append, exponent?, read, Option.map_some]

/-- No digit and no point stands in front of an optional power of ten. -/
theorem span_exponentChars (exponent : Option Int) {rest : List Char} (ends : EndsNumeral rest) :
    Digits.span (exponentChars exponent ++ rest) = ([], exponentChars exponent ++ rest) ∧
      (exponentChars exponent ++ rest).head? ≠ some '.' := by
  cases exponent with
  | none =>
    rw [exponentChars, List.nil_append]
    exact ⟨ends.span, fun point => (ends _ point).2.1 rfl⟩
  | some power => exact ⟨Digits.span_cons_of_none (by decide), by simp [exponentChars]⟩

/-- An optional fraction is read back in front of a text that starts with neither a digit nor a
point. -/
theorem fraction?_chars (digits : List Digit) {rest : List Char}
    (stops : Digits.span rest = ([], rest)) (noPoint : rest.head? ≠ some '.') :
    fraction? (fractionChars digits ++ rest) = some (digits, rest) := by
  cases digits with
  | nil =>
    have text : fractionChars [] ++ rest = rest := rfl
    rw [text]
    unfold fraction?
    split
    · exact absurd rfl noPoint
    · rfl
  | cons digit later =>
    have read := Digits.span_chars (digit :: later) stops
    have text : fractionChars (digit :: later) ++ rest =
        '.' :: (Digits.chars (digit :: later) ++ rest) := rfl
    rw [text, fraction?, read]

/-- No digit stands in front of an optional fraction. -/
theorem span_fractionChars (digits : List Digit) {rest : List Char}
    (stops : Digits.span rest = ([], rest)) :
    Digits.span (fractionChars digits ++ rest) = ([], fractionChars digits ++ rest) := by
  cases digits with
  | nil => exact stops
  | cons digit later => exact Digits.span_cons_of_none (by decide)

/-- A number is read back behind its sign, in front of a text that ends it. -/
theorem numeral?_chars (numeral : Numeral) {rest : List Char} (ends : EndsNumeral rest) :
    numeral? numeral.negative (Digits.chars (Digits.ofNat numeral.whole) ++
      (fractionChars numeral.fraction ++ (exponentChars numeral.exponent ++ rest))) =
        some (numeral, rest) := by
  obtain ⟨stops, noPoint⟩ := span_exponentChars numeral.exponent ends
  have whole := Digits.span_chars (Digits.ofNat numeral.whole)
    (span_fractionChars numeral.fraction stops)
  have fraction := fraction?_chars numeral.fraction stops noPoint
  have exponent := exponent?_chars numeral.exponent ends
  have leading : ¬ (Digits.ofNat numeral.whole = [] ∨
      ((Digits.ofNat numeral.whole).head? = some 0 ∧ 1 < (Digits.ofNat numeral.whole).length)) := by
    rintro (empty | zero)
    · exact Digits.ofNat_ne_nil _ empty
    · exact Digits.leading_ofNat _ zero
  simp only [numeral?, whole, if_neg leading, fraction, exponent, Digits.value_ofNat]

/-- A text that starts with a digit starts with a number. -/
theorem next?_digit (digit : Digit) (rest : List Char) :
    next? (digit.char :: rest) = (numeral? false (digit.char :: rest)).map
      fun (numeral, after) => (.number numeral, after) := by
  match digit with
  | 0 | 1 | 2 | 3 | 4 | 5 | 6 | 7 | 8 | 9 => rfl

/-- A number is cut off in front of a text that ends it. -/
theorem next?_number (numeral : Numeral) {rest : List Char} (ends : EndsNumeral rest) :
    next? ((Token.number numeral).chars ++ rest) = some (.number numeral, rest) := by
  have read := numeral?_chars numeral ends
  rw [chars, numeralChars_eq]
  simp only [List.append_assoc]
  by_cases negative : numeral.negative = true
  · rw [negative] at read
    rw [if_pos negative, List.singleton_append, next?, read, Option.map_some]
  · rw [Bool.not_eq_true] at negative
    rw [negative] at read
    obtain ⟨first, later, shape⟩ := List.exists_cons_of_ne_nil (Digits.ofNat_ne_nil numeral.whole)
    rw [shape] at read
    rw [negative, if_neg Bool.false_ne_true, List.nil_append, shape]
    have text : ∀ after, Digits.chars (first :: later) ++ after =
        first.char :: (Digits.chars later ++ after) := fun _ => rfl
    rw [text] at read ⊢
    rw [next?_digit, read, Option.map_some]

/-- A hexadecimal digit is read back from its character. -/
theorem ofHexDigit?_hexDigit {digit : Nat} (small : digit < 16) :
    ofHexDigit? (hexDigit digit) = some digit := by
  revert digit
  decide

/-- A unit is read back from its four digits. -/
theorem unit?_hexDigits (code : UInt16) :
    unit? (hexDigit (code.toNat / 4096)) (hexDigit (code.toNat / 256 % 16))
      (hexDigit (code.toNat / 16 % 16)) (hexDigit (code.toNat % 16)) = some code := by
  have fits := code.toNat_lt
  have first := ofHexDigit?_hexDigit (by omega : code.toNat / 4096 < 16)
  have second := ofHexDigit?_hexDigit (by omega : code.toNat / 256 % 16 < 16)
  have third := ofHexDigit?_hexDigit (by omega : code.toNat / 16 % 16 < 16)
  have fourth := ofHexDigit?_hexDigit (by omega : code.toNat % 16 < 16)
  have joined : ((code.toNat / 4096 * 16 + code.toNat / 256 % 16) * 16 +
      code.toNat / 16 % 16) * 16 + code.toNat % 16 = code.toNat := by omega
  simp only [unit?, first, second, third, fourth, bind, Option.bind, joined, UInt16.ofNat_toNat]

/-- One piece is read back in front of the pieces that follow. -/
theorem pieces?_cons {piece : Piece} (written : piece.Written) {text rest : List Char}
    {pieces : List Piece} (later : pieces? text = some (pieces, rest)) :
    pieces? (pieceChars piece ++ text) = some (piece :: pieces, rest) := by
  cases piece with
  | plain character =>
    obtain ⟨noQuote, noEscape⟩ := written
    rw [pieceChars, List.singleton_append]
    unfold pieces?
    split <;> simp_all
  | short character =>
    have letter : escapeLetter character ≠ 'u' := by
      intro letter
      rw [Piece.Written, letter] at written
      exact absurd written (by simp [ofEscapeLetter?])
    have escaped : ofEscapeLetter? (escapeLetter character) = some character := written
    rw [pieceChars, List.cons_append, List.singleton_append]
    unfold pieces?
    split <;> simp_all
    next other same => exact (other _ _ same.1.symm same.2.symm).elim
  | unit code =>
    have read := unit?_hexDigits code
    simp only [pieceChars, List.cons_append, List.nil_append, pieces?, read, later]

/-- The pieces of a string are read back up to its closing quote. -/
theorem pieces?_chars {pieces : List Piece} (written : ∀ piece ∈ pieces, piece.Written)
    (rest : List Char) :
    pieces? (pieces.flatMap pieceChars ++ '"' :: rest) = some (pieces, rest) := by
  induction pieces with
  | nil => rfl
  | cons piece later ih =>
    obtain ⟨first, others⟩ := List.forall_mem_cons.mp written
    rw [List.flatMap_cons, List.append_assoc]
    exact pieces?_cons first (ih others)

/-- Whether a token is written as what it is read from. -/
def Written : Token → Prop
  | .string pieces => ∀ piece ∈ pieces, piece.Written
  | _ => True

/-- A token is cut off in front of any text; a number needs one that ends it. -/
theorem next?_chars {token : Token} (written : token.Written) {rest : List Char}
    (ends : ∀ numeral, token = .number numeral → EndsNumeral rest) :
    next? (token.chars ++ rest) = some (token, rest) := by
  cases token with
  | openArray | closeArray | openObject | closeObject | colon | comma | null => rfl
  | bool truth => cases truth <;> rfl
  | number numeral => exact next?_number numeral (ends numeral rfl)
  | string pieces =>
    have read := pieces?_chars written rest
    simp only [chars, List.cons_append, List.append_assoc, List.nil_append, next?, read,
      Option.map_some]

/-- No token starts with a blank. -/
theorem chars_eq_cons (token : Token) :
    ∃ first later, token.chars = first :: later ∧ isBlank first = false := by
  cases token with
  | openArray | closeArray | openObject | closeObject | colon | comma | null =>
    exact ⟨_, _, rfl, by decide⟩
  | bool truth => cases truth <;> exact ⟨_, _, rfl, by decide⟩
  | string pieces => exact ⟨_, _, rfl, by decide⟩
  | number numeral =>
    rw [chars, numeralChars_eq]
    cases numeral.negative with
    | true => exact ⟨_, _, rfl, by decide⟩
    | false =>
      obtain ⟨first, later, shape⟩ := List.exists_cons_of_ne_nil (Digits.ofNat_ne_nil numeral.whole)
      have noBlank : ∀ digit : Digit, isBlank digit.char = false := by decide
      rw [shape]
      exact ⟨_, _, rfl, noBlank first⟩

/-- A token that is cut off stands in front of the tokens of the rest. -/
theorem ofText?_chars {token : Token} (written : token.Written) {rest : List Char}
    (ends : ∀ numeral, token = .number numeral → EndsNumeral rest) :
    ofText? (token.chars ++ rest) = (ofText? rest).map (token :: ·) := by
  have read := next?_chars written ends
  obtain ⟨first, later, shape, noBlank⟩ := chars_eq_cons token
  rw [shape, List.cons_append] at read ⊢
  rw [ofText?, noBlank, if_neg Bool.false_ne_true]
  split
  · next refused => simp [read] at refused
  · next found =>
    rw [read] at found
    cases found
    rfl

end Token

end TypedRecord.Json
