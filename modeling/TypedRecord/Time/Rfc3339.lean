import TypedRecord.Text.Digits
import TypedRecord.Time.Calendar
import TypedRecord.Time.Timestamp

/-!
# Timestamps as text

A timestamp is written as a date and a time of day in universal time with three fraction digits. The
reader accepts more than the writer writes: a small or blank separator, any number of fraction
digits, and an offset from universal time. Second 60 may close any minute and counts as one more
second than 59. A reader that wants either spelling takes a plain count of milliseconds first.
-/
namespace TypedRecord

namespace Rfc3339

/-- The first year that is written. -/
def firstYear : Int := -262143

/-- The last year that is written. -/
def lastYear : Int := 262142

/-- Milliseconds in a day. -/
def dayMillis : Int := 86400000

/-- A character that has to stand at the front of a text. -/
def skip? (accepts : Char → Bool) : List Char → Option (List Char)
  | [] => none
  | c :: rest => if accepts c then some rest else none

/-- A field of exactly `width` digits at the front of a text. -/
def field? (width : Nat) (text : List Char) : Option (Nat × List Char) :=
  let (digits, _) := Digits.span (text.take width)
  if digits.length = width then some (Digits.value digits, text.drop width) else none

/-- The milliseconds of an optional fraction. Digits after the third are read and dropped. -/
def fraction? : List Char → Option (Nat × List Char)
  | '.' :: rest =>
    match Digits.span rest with
    | ([], _) => none
    | (digits, after) => some (Digits.value (digits.take 3) * 10 ^ (3 - digits.length), after)
  | text => some (0, text)

/-- The minutes of a signed offset without its sign. -/
def offsetMinutes? (text : List Char) : Option (Nat × List Char) := do
  let (hours, rest) ← field? 2 text
  let rest ← skip? (· == ':') rest
  let (minutes, rest) ← field? 2 rest
  if hours ≤ 23 ∧ minutes ≤ 59 then some (hours * 60 + minutes, rest) else none

/-- The offset from universal time in minutes. The sign may also be the minus sign U+2212. -/
def offset? : List Char → Option (Int × List Char)
  | 'Z' :: rest | 'z' :: rest => some (0, rest)
  | '+' :: rest => (offsetMinutes? rest).map fun (minutes, rest) => ((minutes : Int), rest)
  | '-' :: rest | '−' :: rest =>
    (offsetMinutes? rest).map fun (minutes, rest) => (-(minutes : Int), rest)
  | _ => none

/-- The milliseconds of a second of a minute: second 60 is second 59 and a thousand more. -/
def secondMillis? (second : Nat) : Option Nat :=
  if second ≤ 60 then some (second * 1000) else none

/-- The milliseconds since the epoch that a text names. -/
def parseMillis? (text : List Char) : Option Int := do
  let (year, rest) ← field? 4 text
  let rest ← skip? (· == '-') rest
  let (month, rest) ← field? 2 rest
  let rest ← skip? (· == '-') rest
  let (day, rest) ← field? 2 rest
  let rest ← skip? (fun c => c == 'T' || c == 't' || c == ' ') rest
  let (hour, rest) ← field? 2 rest
  let rest ← skip? (· == ':') rest
  let (minute, rest) ← field? 2 rest
  let rest ← skip? (· == ':') rest
  let (second, rest) ← field? 2 rest
  let (millis, rest) ← fraction? rest
  let (offset, rest) ← offset? rest
  let date : CivilDate := ⟨year, month, day⟩
  let secondMillis ← secondMillis? second
  if date.isValid && hour ≤ 23 && minute ≤ 59 && rest.isEmpty then
    let minutes : Int := date.toDays * 1440 + (hour * 60 + minute : Nat) - offset
    some (minutes * 60000 + secondMillis + millis)
  else none

/-- The timestamp that a text names. -/
def parse? (text : String) : Option Timestamp :=
  (parseMillis? text.toList).map fun millis => ⟨Int64.ofInt millis⟩

/-- A year has four digits; a year outside 0 to 9999 also has a sign. -/
def yearChars (year : Int) : List Char :=
  if 0 ≤ year ∧ year ≤ 9999 then Digits.chars (Digits.fixed 4 year.natAbs)
  else
    let digits := Digits.ofNat year.natAbs
    let zeros := List.replicate (4 - digits.length) 0
    (if year < 0 then '-' else '+') :: Digits.chars (zeros ++ digits)

/-- The characters of the last `width` digits of a number. -/
def fieldChars (width number : Nat) : List Char := Digits.chars (Digits.fixed width number)

/-- The text of a date and a time of day. -/
def chars (date : CivilDate) (millisOfDay : Nat) : List Char :=
  yearChars date.year ++ '-' :: fieldChars 2 date.month ++ '-' :: fieldChars 2 date.day
    ++ 'T' :: fieldChars 2 (millisOfDay / 3600000)
    ++ ':' :: fieldChars 2 (millisOfDay / 60000 % 60)
    ++ ':' :: fieldChars 2 (millisOfDay / 1000 % 60)
    ++ '.' :: fieldChars 3 (millisOfDay % 1000) ++ ['Z']

/-- The text of a timestamp; none when its year is not written. -/
def render? (time : Timestamp) : Option String :=
  let millis := time.millis.toInt
  let days := millis.fdiv dayMillis
  let date := CivilDate.ofDays days
  if firstYear ≤ date.year ∧ date.year ≤ lastYear then
    some (String.ofList (chars date (millis - days * dayMillis).toNat))
  else none

end Rfc3339

namespace Timestamp

/-- A signed decimal count in the range of a timestamp. -/
def ofDecimal? (text : String) : Option Timestamp :=
  match Digits.parseSigned? text.toList with
  | some millis =>
    if -2 ^ 63 ≤ millis ∧ millis < 2 ^ 63 then some ⟨Int64.ofInt millis⟩ else none
  | none => none

/-- A timestamp from its decimal count or from its date and time. -/
def parseFlexible? (text : String) : Option Timestamp :=
  match ofDecimal? text with
  | some time => some time
  | none => Rfc3339.parse? text

/-- The decimal count of a timestamp. -/
def decimal (time : Timestamp) : String := Digits.intText time.millis.toInt

end Timestamp

end TypedRecord
