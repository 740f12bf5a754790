import TypedRecord.Proofs.Calendar
import TypedRecord.Proofs.Digits
import TypedRecord.Value.Coercion

/-!
# Timestamps read back from their text

A field of a date or of a time of day is read back from its digits, so a text written for a year of
four digits names the instant it was written for. A year outside 0 to 9999 is written with a sign,
which is no digit to the reader of dates, and a hyphen follows, which ends the number for the reader
of counts. Main statements: a text written for a timestamp names that timestamp or none, and no text
is both a count and a date.
-/
namespace TypedRecord

namespace Rfc3339

/-- A step of a reader that reads a value goes on with the value. -/
theorem bind_eq_of_some {α β : Type} {step : Option α} {value : α} {later : α → Option β}
    {result : Option β} (read : step = some value) (rest : later value = result) :
    (step >>= later) = result := by
  rw [read]
  exact rest

/-- A character that is accepted is skipped. -/
theorem skip?_cons {accepts : Char → Bool} {c : Char} (accepted : accepts c = true)
    (rest : List Char) : skip? accepts (c :: rest) = some rest := if_pos accepted

/-- A field is read back from the digits of a number that fits its width. -/
theorem field?_fieldChars {width number : Nat} (fits : number < 10 ^ width) (rest : List Char) :
    field? width (fieldChars width number ++ rest) = some (number, rest) := by
  have size : (fieldChars width number).length = width := by
    rw [fieldChars, Digits.chars, List.length_map, Digits.length_fixed]
  have digits : Digits.span (fieldChars width number) = (Digits.fixed width number, []) := by
    rw [fieldChars, ← List.append_nil (Digits.chars _)]
    exact Digits.span_chars _ rfl
  rw [field?, List.take_left' size, List.drop_left' size, digits]
  simp only [Digits.length_fixed, Digits.value_fixed fits, if_true]

/-- A field that is read stands in digits at the front of the text. -/
theorem eq_chars_of_field? {width number : Nat} {text rest : List Char}
    (read : field? width text = some (number, rest)) :
    ∃ digits : List Digit, digits.length = width ∧ text = Digits.chars digits ++ rest := by
  cases run : Digits.span (text.take width) with
  | mk digits after =>
    have front := Digits.eq_chars_of_span run
    simp only [field?, run] at read
    split at read
    next full =>
      obtain ⟨-, rfl⟩ := Prod.mk.inj (Option.some.inj read)
      have size := congrArg List.length front
      rw [List.length_take, List.length_append, Digits.chars, List.length_map, full] at size
      have whole : after = [] := List.eq_nil_of_length_eq_zero (by omega)
      rw [whole, List.append_nil] at front
      exact ⟨digits, full, by rw [← front, List.take_append_drop]⟩
    next => cases read

/-- A fraction is read from its digits. -/
theorem fraction?_chars {digits : List Digit} (present : digits ≠ []) {rest : List Char}
    (stops : Digits.span rest = ([], rest)) :
    fraction? ('.' :: (Digits.chars digits ++ rest)) =
      some (Digits.value (digits.take 3) * 10 ^ (3 - digits.length), rest) := by
  have read := Digits.span_chars digits stops
  obtain ⟨first, later, rfl⟩ := List.exists_cons_of_ne_nil present
  simp only [fraction?, read]

/-- Three fraction digits are read back as milliseconds. -/
theorem fraction?_fieldChars {millis : Nat} (fits : millis < 1000) {rest : List Char}
    (stops : Digits.span rest = ([], rest)) :
    fraction? ('.' :: (fieldChars 3 millis ++ rest)) = some (millis, rest) := by
  have size := Digits.length_fixed 3 millis
  have present : Digits.fixed 3 millis ≠ [] := by
    apply List.ne_nil_of_length_pos
    omega
  rw [fieldChars, fraction?_chars present stops, List.take_of_length_le (Nat.le_of_eq size),
    Digits.value_fixed fits, size, Nat.sub_self, Nat.pow_zero, Nat.mul_one]

/-- The text of a date of a year of four digits and a time of day names that time of that day. -/
theorem parseMillis?_chars {date : CivilDate} {millisOfDay : Nat} (valid : date.isValid = true)
    (year : 0 ≤ date.year ∧ date.year ≤ 9999) (inDay : (millisOfDay : Int) < dayMillis) :
    parseMillis? (chars date millisOfDay) = some (date.toDays * dayMillis + millisOfDay) := by
  obtain ⟨months, days⟩ := CivilDate.mem_of_isValid valid
  have short := CivilDate.daysInMonth_le date.year date.month
  rw [dayMillis] at inDay ⊢
  have yearFits : date.year.natAbs < 10 ^ 4 := by omega
  have monthFits : date.month < 10 ^ 2 := by omega
  have dayFits : date.day < 10 ^ 2 := by omega
  have hours : millisOfDay / 3600000 ≤ 23 := by omega
  have minutes : millisOfDay / 60000 % 60 ≤ 59 := by omega
  have seconds : millisOfDay / 1000 % 60 ≤ 59 := by omega
  have millis : millisOfDay % 1000 < 1000 := by omega
  have zone : Digits.span ['Z'] = ([], ['Z']) := rfl
  have yearText : yearChars date.year = fieldChars 4 date.year.natAbs := if_pos year
  have same : (⟨date.year.natAbs, date.month, date.day⟩ : CivilDate) = date := by
    rw [Int.natAbs_of_nonneg year.1]
  simp only [chars, yearText, List.append_assoc, List.cons_append]
  rw [parseMillis?]
  refine bind_eq_of_some (field?_fieldChars yearFits _) ?_
  refine bind_eq_of_some (skip?_cons rfl _) ?_
  refine bind_eq_of_some (field?_fieldChars monthFits _) ?_
  refine bind_eq_of_some (skip?_cons rfl _) ?_
  refine bind_eq_of_some (field?_fieldChars dayFits _) ?_
  refine bind_eq_of_some (skip?_cons rfl _) ?_
  refine bind_eq_of_some (field?_fieldChars (by omega) _) ?_
  refine bind_eq_of_some (skip?_cons rfl _) ?_
  refine bind_eq_of_some (field?_fieldChars (by omega) _) ?_
  refine bind_eq_of_some (skip?_cons rfl _) ?_
  refine bind_eq_of_some (field?_fieldChars (by omega) _) ?_
  refine bind_eq_of_some (fraction?_fieldChars millis zone) ?_
  refine bind_eq_of_some rfl ?_
  refine bind_eq_of_some (if_pos (by omega)) ?_
  dsimp only
  rw [same, if_pos (by simp [valid, hours, minutes])]
  congr 1
  omega

/-- A year outside 0 to 9999 is written in digits behind a sign. -/
theorem yearChars_of_outside {year : Int} (outside : ¬ (0 ≤ year ∧ year ≤ 9999)) :
    ∃ (sign : Char) (digits : List Digit), (sign = '-' ∨ sign = '+') ∧
      yearChars year = sign :: Digits.chars digits := by
  rw [yearChars, if_neg outside]
  refine ⟨_, _, ?_, rfl⟩
  split
  · exact .inl rfl
  · exact .inr rfl

/-- A text that starts with a sign is no date. -/
theorem parseMillis?_sign {sign : Char} (signed : sign = '-' ∨ sign = '+') (rest : List Char) :
    parseMillis? (sign :: rest) = none := by
  have other : Digit.ofChar? sign = none := by
    obtain rfl | rfl := signed <;> rfl
  have refused : field? 4 (sign :: rest) = none := by
    rw [field?, List.take_succ_cons, Digits.span_cons_of_none other]
    rfl
  rw [parseMillis?, refused]
  rfl

/-- A hyphen follows the four digits of the year in the text of a date. -/
theorem eq_chars_of_parseMillis? {text : List Char} {millis : Int}
    (read : parseMillis? text = some millis) :
    ∃ (digits : List Digit) (rest : List Char), digits.length = 4 ∧
      text = Digits.chars digits ++ '-' :: rest := by
  rw [parseMillis?] at read
  obtain ⟨⟨year, rest⟩, field, read⟩ := Option.bind_eq_some_iff.mp read
  obtain ⟨later, hyphen, -⟩ := Option.bind_eq_some_iff.mp read
  obtain ⟨digits, full, rfl⟩ := eq_chars_of_field? field
  cases rest with
  | nil => cases hyphen
  | cons c rest =>
    have accepted : c = '-' := by
      by_contra other
      simp [skip?, other] at hyphen
    exact ⟨digits, rest, full, by rw [accepted]⟩

end Rfc3339

namespace Timestamp

/-- A text that is no signed number is no count. -/
theorem ofDecimal?_eq_none {text : String} (refused : Digits.parseSigned? text.toList = none) :
    ofDecimal? text = none := by
  rw [ofDecimal?, refused]

/-- The text of a date is no count. -/
theorem ofDecimal?_eq_none_of_parse? {text : String} {time : Timestamp}
    (read : Rfc3339.parse? text = some time) : ofDecimal? text = none := by
  obtain ⟨millis, date, -⟩ := Option.map_eq_some_iff.mp read
  obtain ⟨digits, rest, four, chars⟩ := Rfc3339.eq_chars_of_parseMillis? date
  have present : digits ≠ [] := by
    apply List.ne_nil_of_length_pos
    omega
  apply ofDecimal?_eq_none
  rw [chars]
  exact Digits.parseSigned?_chars_cons present rfl rest

/-- The text of a date is read as the date. -/
theorem parseFlexible?_of_parse? {text : String} {time : Timestamp}
    (read : Rfc3339.parse? text = some time) : parseFlexible? text = some time := by
  rw [parseFlexible?, ofDecimal?_eq_none_of_parse? read]
  exact read

/-- The date of the day that a timestamp is on. -/
def date (time : Timestamp) : CivilDate :=
  CivilDate.ofDays (time.millis.toInt.fdiv Rfc3339.dayMillis)

/-- The milliseconds from the start of its day to a timestamp. -/
def millisOfDay (time : Timestamp) : Nat :=
  (time.millis.toInt - time.millis.toInt.fdiv Rfc3339.dayMillis * Rfc3339.dayMillis).toNat

/-- A timestamp is counted by its date and its time of day. -/
theorem toDays_date_add_millisOfDay (time : Timestamp) :
    time.date.toDays * Rfc3339.dayMillis + time.millisOfDay = time.millis.toInt ∧
      (time.millisOfDay : Int) < Rfc3339.dayMillis := by
  rw [date, CivilDate.toDays_ofDays, millisOfDay, Int.fdiv_eq_ediv_of_nonneg _ (by decide),
    Rfc3339.dayMillis]
  omega

/-- A timestamp of the years 0 to 9999, the ones that are written without a sign. -/
def InFourDigits (time : Timestamp) : Prop :=
  ∃ day : CivilDate, day.isValid = true ∧ (0 ≤ day.year ∧ day.year ≤ 9999) ∧
    day.toDays * Rfc3339.dayMillis ≤ time.millis.toInt ∧
    time.millis.toInt < (day.toDays + 1) * Rfc3339.dayMillis

/-- The year of a timestamp is the one of its date. -/
theorem inFourDigits_iff (time : Timestamp) :
    time.InFourDigits ↔ 0 ≤ time.date.year ∧ time.date.year ≤ 9999 := by
  obtain ⟨counted, inDay⟩ := time.toDays_date_add_millisOfDay
  rw [Rfc3339.dayMillis] at counted inDay
  constructor
  · rintro ⟨day, valid, years, low, high⟩
    rw [Rfc3339.dayMillis] at low high
    have same : day.toDays = time.date.toDays := by omega
    have found : day = time.date := by
      rw [← CivilDate.ofDays_toDays valid, same, date, CivilDate.toDays_ofDays]
    rwa [← found]
  · intro years
    refine ⟨time.date, CivilDate.isValid_ofDays _, years, ?_, ?_⟩ <;>
      rw [Rfc3339.dayMillis] <;> omega

/-- A timestamp is written as its date and its time of day. -/
theorem render?_eq (time : Timestamp) :
    Rfc3339.render? time =
      if Rfc3339.firstYear ≤ time.date.year ∧ time.date.year ≤ Rfc3339.lastYear then
        some (String.ofList (Rfc3339.chars time.date time.millisOfDay))
      else none := rfl

/-- The text of a timestamp of the years 0 to 9999 names it. -/
theorem parse?_of_inFourDigits {time : Timestamp} (years : time.InFourDigits) :
    Rfc3339.parse? (String.ofList (Rfc3339.chars time.date time.millisOfDay)) = some time := by
  obtain ⟨counted, inDay⟩ := time.toDays_date_add_millisOfDay
  have valid : time.date.isValid = true := CivilDate.isValid_ofDays _
  have read := Rfc3339.parseMillis?_chars valid (time.inFourDigits_iff.mp years) inDay
  rw [counted] at read
  rw [Rfc3339.parse?, String.toList_ofList, read, Option.map_some, Int64.ofInt_toInt]

/-- The text of a timestamp of another year is neither a count nor a date. -/
theorem parseFlexible?_of_not_inFourDigits {time : Timestamp} (years : ¬ time.InFourDigits) :
    parseFlexible? (String.ofList (Rfc3339.chars time.date time.millisOfDay)) = none := by
  rw [inFourDigits_iff] at years
  obtain ⟨sign, digits, signed, year⟩ := Rfc3339.yearChars_of_outside years
  obtain ⟨rest, text⟩ : ∃ rest, Rfc3339.chars time.date time.millisOfDay =
      sign :: (Digits.chars digits ++ '-' :: rest) := by
    simp only [Rfc3339.chars, year, List.append_assoc, List.cons_append]
    exact ⟨_, rfl⟩
  have number : ofDecimal? (String.ofList (Rfc3339.chars time.date time.millisOfDay)) = none := by
    apply ofDecimal?_eq_none
    rw [String.toList_ofList, text]
    obtain rfl | rfl := signed
    · rw [Digits.parseSigned?, Digits.parse?_chars_cons digits rfl]
      rfl
    · rw [Digits.parseSigned?, Digits.parse?_chars_cons digits rfl]
      rfl
  rw [parseFlexible?, number]
  dsimp only
  rw [Rfc3339.parse?, String.toList_ofList, text, Rfc3339.parseMillis?_sign signed, Option.map_none]

/-- The text of a timestamp of the years 0 to 9999, which all have one, is read back as that
timestamp, and the text of another timestamp is refused. No text is both a count and a date, so a
reader may take either first. -/
theorem parseFlexible?_render? :
    (∀ (time : Timestamp) (text : String), Rfc3339.render? time = some text →
      (time.InFourDigits →
        parseFlexible? text = some time ∧ (Value.text text).toTimestamp? = some time) ∧
      (¬ time.InFourDigits →
        parseFlexible? text = none ∧ (Value.text text).toTimestamp? = none)) ∧
    (∀ time : Timestamp, time.InFourDigits → ∃ text, Rfc3339.render? time = some text) ∧
    ∀ text : String, (ofDecimal? text = none ∨ Rfc3339.parse? text = none) ∧
      parseFlexible? text = (Rfc3339.parse? text).or (ofDecimal? text) := by
  refine ⟨?_, ?_, ?_⟩
  · intro time text rendered
    rw [render?_eq] at rendered
    split at rendered
    next =>
      cases rendered
      constructor
      · intro years
        have read := parseFlexible?_of_parse? (parse?_of_inFourDigits years)
        exact ⟨read, read⟩
      · intro years
        have refused := parseFlexible?_of_not_inFourDigits years
        exact ⟨refused, refused⟩
    next => cases rendered
  · intro time years
    have year := time.inFourDigits_iff.mp years
    rw [render?_eq, if_pos (by rw [Rfc3339.firstYear, Rfc3339.lastYear]; omega)]
    exact ⟨_, rfl⟩
  · intro text
    cases date : Rfc3339.parse? text with
    | none =>
      refine ⟨.inr rfl, ?_⟩
      rw [parseFlexible?, date, Option.none_or]
      cases ofDecimal? text <;> rfl
    | some time =>
      refine ⟨.inl (ofDecimal?_eq_none_of_parse? date), ?_⟩
      rw [parseFlexible?_of_parse? date, Option.some_or]

/-- The last instant of the leap day of the year 0, and the first one of the year 10000. -/
theorem parseFlexible?_render?_bounds :
    Rfc3339.render? ⟨-62162035200001⟩ = some "0000-02-29T23:59:59.999Z" ∧
      InFourDigits ⟨-62162035200001⟩ ∧
      parseFlexible? "0000-02-29T23:59:59.999Z" = some ⟨-62162035200001⟩ ∧
      Rfc3339.render? ⟨253402300800000⟩ = some "+10000-01-01T00:00:00.000Z" ∧
      ¬ InFourDigits ⟨253402300800000⟩ ∧
      parseFlexible? "+10000-01-01T00:00:00.000Z" = none := by
  have leapDay : Rfc3339.render? ⟨-62162035200001⟩ = some "0000-02-29T23:59:59.999Z" := by
    decide +kernel
  have inside : InFourDigits ⟨-62162035200001⟩ := by
    rw [inFourDigits_iff]
    decide +kernel
  have millennium : Rfc3339.render? ⟨253402300800000⟩ = some "+10000-01-01T00:00:00.000Z" := by
    decide +kernel
  have outside : ¬ InFourDigits ⟨253402300800000⟩ := by
    rw [inFourDigits_iff]
    decide +kernel
  exact ⟨leapDay, inside, ((parseFlexible?_render?.1 _ _ leapDay).1 inside).1, millennium, outside,
    ((parseFlexible?_render?.1 _ _ millennium).2 outside).1⟩

end Timestamp

end TypedRecord
