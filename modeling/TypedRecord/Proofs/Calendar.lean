import Mathlib.Tactic.IntervalCases
import TypedRecord.Time.Calendar

/-!
# Days and dates

A cycle of 400 years that begin in March has four centuries, the last one a day longer than the
others, a century has groups of four years, the last one a day shorter than the others unless it
closes the cycle, and a group has four years, the last one a day longer than the others unless the
group is short. So a day of a cycle has a place by century, group, year and day of the year, and the
place gives both the count of the day and its date. Main statements: the date of a count of days is
one of the calendar and is counted as that many days, and every date of the calendar is the date of
its count.
-/
namespace TypedRecord.CivilDate

/-- The year of a date, taken to begin in March. -/
def marchYear (date : CivilDate) : Int := if date.month ≤ 2 then date.year - 1 else date.year

/-- The month of a date, from March. -/
def marchMonth (date : CivilDate) : Int :=
  if date.month ≤ 2 then date.month + 9 else date.month - 3

/-- The days from 1 March to a date. -/
def dayOfYear (date : CivilDate) : Int := (153 * date.marchMonth + 2) / 5 + date.day - 1

/-- A date is counted by its cycle, its year of the cycle and its day of the year. -/
theorem toDays_eq (date : CivilDate) :
    date.toDays = date.marchYear.fdiv 400 * cycle +
      ((date.marchYear - date.marchYear.fdiv 400 * 400) * 365 +
        (date.marchYear - date.marchYear.fdiv 400 * 400) / 4 -
        (date.marchYear - date.marchYear.fdiv 400 * 400) / 100 + date.dayOfYear) - marchOrigin :=
  rfl

/-- A month that has a day is one of twelve. -/
theorem month_mem_of_day {year : Int} {month day : Nat}
    (occurs : 1 ≤ day ∧ day ≤ daysInMonth year month) : 1 ≤ month ∧ month ≤ 12 := by
  unfold daysInMonth at occurs
  split at occurs <;> omega

/-- No month is longer than 31 days. -/
theorem daysInMonth_le (year : Int) (month : Nat) : daysInMonth year month ≤ 31 := by
  unfold daysInMonth
  cases isLeap year <;> split <;> decide

/-- The month and the day of a date of the calendar. -/
theorem mem_of_isValid {date : CivilDate} (valid : date.isValid = true) :
    (1 ≤ date.month ∧ date.month ≤ 12) ∧
      1 ≤ date.day ∧ date.day ≤ daysInMonth date.year date.month := by
  have occurs : 1 ≤ date.day ∧ date.day ≤ daysInMonth date.year date.month := by
    simpa [isValid] using valid
  exact ⟨month_mem_of_day occurs, occurs⟩

/-- The day of the year of a date of the calendar is in the month of the date, and day 365 is the
leap day. -/
theorem dayOfYear_mem {date : CivilDate} (valid : date.isValid = true) :
    (5 * date.dayOfYear + 2) / 153 = date.marchMonth ∧
      (0 ≤ date.dayOfYear ∧ date.dayOfYear ≤ 365) ∧
      (date.dayOfYear = 365 → isLeap (date.marchYear + 1) = true) := by
  obtain ⟨months, days⟩ := mem_of_isValid valid
  obtain ⟨year, month, day⟩ := date
  dsimp only at months days
  obtain ⟨low, high⟩ := months
  simp only [dayOfYear, marchMonth, marchYear]
  obtain rfl | other : month = 2 ∨ month ≠ 2 := by omega
  · have short : day ≤ 29 ∧ (day = 29 → isLeap year = true) := by
      cases leap : isLeap year <;> simp [daysInMonth, leap] at days ⊢ <;> omega
    simp
    refine ⟨?_, ?_, fun last => short.2 ?_⟩ <;> omega
  · interval_cases month
    all_goals simp [daysInMonth] at days other ⊢
    all_goals omega

/-- The place of a day in a cycle of 400 years that begin in March. -/
structure Place where
  /-- The century of the cycle. -/
  century : Int
  /-- The group of four years in the century. -/
  group : Int
  /-- The year of the group. -/
  year : Int
  /-- The day of the year. -/
  day : Int
  century_mem : 0 ≤ century ∧ century ≤ 3
  group_mem : 0 ≤ group ∧ group ≤ 24
  year_mem : 0 ≤ year ∧ year ≤ 3
  day_mem : 0 ≤ day ∧ day ≤ 365
  leap : day = 365 → year = 3 ∧ (group = 24 → century = 3)

namespace Place

variable (place : Place)

/-- The year of the cycle. -/
def yearOfCycle : Int := 100 * place.century + 4 * place.group + place.year

/-- The day of the cycle. -/
def dayOfCycle : Int :=
  36524 * place.century + 1461 * place.group + 365 * place.year + place.day

/-- The month of the year, from March. -/
def month : Int := (5 * place.day + 2) / 153

/-- The day of the month, from 1. -/
def dayOfMonth : Int := place.day - (153 * place.month + 2) / 5 + 1

/-- The date of a place in a cycle. -/
def date (cycle : Int) : CivilDate :=
  let month := if place.month < 10 then place.month + 3 else place.month - 9
  ⟨place.yearOfCycle + cycle * 400 + (if month ≤ 2 then 1 else 0), month.toNat,
    place.dayOfMonth.toNat⟩

/-- The days of a cycle. -/
theorem dayOfCycle_mem : 0 ≤ place.dayOfCycle ∧ place.dayOfCycle < cycle := by
  obtain ⟨century, group, year, day, centuries, groups, years, days, leap⟩ := place
  simp only [dayOfCycle, cycle]
  omega

/-- The months of a year. -/
theorem month_mem : 0 ≤ place.month ∧ place.month ≤ 11 := by
  have days := place.day_mem
  rw [month]
  omega

/-- The years that close a group and those that close a century, counted from the start of the
cycle. -/
theorem yearOfCycle_div :
    place.yearOfCycle / 4 = 25 * place.century + place.group ∧
      place.yearOfCycle / 100 = place.century := by
  have groups := place.group_mem
  have years := place.year_mem
  rw [yearOfCycle]
  omega

/-- The day of a cycle is found from the year of the cycle and the day of the year. -/
theorem dayOfCycle_eq :
    place.dayOfCycle = place.yearOfCycle * 365 + place.yearOfCycle / 4 - place.yearOfCycle / 100 +
      place.day := by
  obtain ⟨groups, centuries⟩ := place.yearOfCycle_div
  rw [groups, centuries, yearOfCycle, dayOfCycle]
  omega

/-- The year of the cycle is found from the day of the cycle. -/
theorem yearOfCycle_eq :
    (place.dayOfCycle - place.dayOfCycle / 1460 + place.dayOfCycle / 36524 -
      place.dayOfCycle / 146096) / 365 = place.yearOfCycle := by
  obtain ⟨century, group, year, day, centuries, groups, years, days, leap⟩ := place
  simp only [dayOfCycle, yearOfCycle]
  -- Of all days only the last one of the cycle lies beyond the 36524 days of its century.
  have last : 1461 * group + 365 * year + day ≤ 36523 ∨
      century = 3 ∧ group = 24 ∧ year = 3 ∧ day = 365 := by omega
  have cycles : (36524 * century + 1461 * group + 365 * year + day) / 36524 -
      (36524 * century + 1461 * group + 365 * year + day) / 146096 = century := by
    obtain inside | ⟨rfl, rfl, rfl, rfl⟩ := last
    · have full : (36524 * century + 1461 * group + 365 * year + day) / 36524 = century := by omega
      have none : (36524 * century + 1461 * group + 365 * year + day) / 146096 = 0 := by omega
      rw [full, none, Int.sub_zero]
    · decide
  -- Groups are counted by 1460 days, so a day in the last year may count for one group more.
  have carried : (24 * century + group + 365 * year + day) / 1460 = 0 ∧ day ≤ 364 ∨
      (24 * century + group + 365 * year + day) / 1460 = 1 ∧ 1 ≤ day := by omega
  have counted : (36524 * century + 1461 * group + 365 * year + day) / 1460 =
      25 * century + group + (24 * century + group + 365 * year + day) / 1460 := by omega
  omega

/-- Every day of a cycle has a place. -/
theorem exists_of_dayOfCycle {day : Int} (low : 0 ≤ day) (high : day < cycle) :
    ∃ place : Place, place.dayOfCycle = day := by
  rw [cycle] at high
  obtain ⟨century, centuries, starts, below⟩ : ∃ century, (0 ≤ century ∧ century ≤ 3) ∧
      36524 * century ≤ day ∧
        (day < 36524 * century + 36524 ∨ century = 3 ∧ day = 146096) := by
    refine ⟨min (day / 36524) 3, ?_, ?_, ?_⟩ <;> omega
  obtain ⟨group, groups, starts, below⟩ : ∃ group, (0 ≤ group ∧ group ≤ 24) ∧
      36524 * century + 1461 * group ≤ day ∧ day < 36524 * century + 1461 * group + 1461 := by
    refine ⟨(day - 36524 * century) / 1461, ?_, ?_, ?_⟩ <;> omega
  obtain ⟨year, years, starts, below⟩ : ∃ year, (0 ≤ year ∧ year ≤ 3) ∧
      36524 * century + 1461 * group + 365 * year ≤ day ∧
        (day < 36524 * century + 1461 * group + 365 * year + 365 ∨ year = 3) := by
    refine ⟨min ((day - 36524 * century - 1461 * group) / 365) 3, ?_, ?_, ?_⟩ <;> omega
  refine ⟨⟨century, group, year, day - (36524 * century + 1461 * group + 365 * year), centuries,
    groups, years, by omega, by omega⟩, ?_⟩
  simp only [dayOfCycle]
  omega

/-- The date of a place is found from the count of its day. -/
theorem ofDays_eq_date (era : Int) :
    ofDays (era * cycle + place.dayOfCycle - marchOrigin) = place.date era := by
  have shifted : era * cycle + place.dayOfCycle - marchOrigin + marchOrigin =
      place.dayOfCycle + era * cycle := by omega
  have cycles : (place.dayOfCycle + era * cycle).fdiv cycle = era := by
    rw [Int.fdiv_eq_ediv_of_nonneg _ (by decide), Int.add_mul_ediv_right _ _ (by decide),
      Int.ediv_eq_zero_of_lt place.dayOfCycle_mem.1 place.dayOfCycle_mem.2, Int.zero_add]
  have days : place.dayOfCycle - (365 * place.yearOfCycle + place.yearOfCycle / 4 -
      place.yearOfCycle / 100) = place.day := by
    have counted := place.dayOfCycle_eq
    omega
  simp only [ofDays, shifted, cycles, Int.add_sub_cancel, yearOfCycle_eq, days]
  rfl

/-- The day of the month is one of 31. -/
theorem dayOfMonth_mem : 1 ≤ place.dayOfMonth ∧ place.dayOfMonth ≤ 31 := by
  have days := place.day_mem
  rw [dayOfMonth, month]
  omega

/-- The year of the date, taken to begin in March, is the year of the place. -/
theorem marchYear_date (era : Int) :
    (place.date era).marchYear = place.yearOfCycle + era * 400 := by
  have months := place.month_mem
  simp only [marchYear, date]
  split <;> split <;> omega

/-- The month of the date, from March, is the month of the place. -/
theorem marchMonth_date (era : Int) : (place.date era).marchMonth = place.month := by
  have months := place.month_mem
  simp only [marchMonth, date]
  split <;> split <;> omega

/-- The day of the year of the date is the one of the place. -/
theorem dayOfYear_date (era : Int) : (place.date era).dayOfYear = place.day := by
  have day : ((place.date era).day : Int) = place.dayOfMonth :=
    Int.toNat_of_nonneg (by have days := place.dayOfMonth_mem; omega)
  rw [dayOfYear, marchMonth_date, day, dayOfMonth]
  omega

/-- The date of a place is counted as the day of the place. -/
theorem toDays_date (era : Int) :
    (place.date era).toDays = era * cycle + place.dayOfCycle - marchOrigin := by
  have years : 0 ≤ place.yearOfCycle ∧ place.yearOfCycle < 400 := by
    have centuries := place.century_mem
    have groups := place.group_mem
    have years := place.year_mem
    rw [yearOfCycle]
    omega
  have cycles : (place.yearOfCycle + era * 400).fdiv 400 = era := by
    rw [Int.fdiv_eq_ediv_of_nonneg _ (by decide), Int.add_mul_ediv_right _ _ (by decide),
      Int.ediv_eq_zero_of_lt years.1 years.2, Int.zero_add]
  have counted := place.dayOfCycle_eq
  rw [toDays_eq, marchYear_date, dayOfYear_date, cycles, Int.add_sub_cancel, ← counted]

/-- A year that is followed by a leap day is closed by it. -/
theorem isLeap_of_day (era : Int) (last : place.day = 365) :
    isLeap (place.yearOfCycle + era * 400 + 1) = true := by
  have centuries := place.century_mem
  have groups := place.group_mem
  obtain ⟨closes, long⟩ := place.leap last
  have fourth : (place.yearOfCycle + era * 400 + 1) % 4 = 0 := by
    rw [yearOfCycle]
    omega
  have hundredth : (place.yearOfCycle + era * 400 + 1) % 100 ≠ 0 ∨
      (place.yearOfCycle + era * 400 + 1) % 400 = 0 := by
    rw [yearOfCycle]
    omega
  simpa [isLeap, fourth] using hundredth

/-- The date of a place is one of the calendar. -/
theorem isValid_date (era : Int) : (place.date era).isValid = true := by
  have days := place.day_mem
  obtain ⟨m, month⟩ : ∃ m : Nat, place.month = m := Int.eq_ofNat_of_zero_le place.month_mem.1
  have small : m ≤ 11 := by
    have months := place.month_mem
    omega
  have inside : 153 * (m : Int) ≤ 5 * place.day + 2 ∧ 5 * place.day + 2 < 153 * (m + 1) := by
    rw [← month, Place.month]
    omega
  simp only [isValid, date, dayOfMonth, month]
  obtain last | before : place.day = 365 ∨ place.day ≤ 364 := by omega
  · -- The day that a year of 365 days does not have is a leap day.
    have february : m = 11 := by omega
    subst february
    simp [daysInMonth, last, place.isLeap_of_day era last]
  · clear month
    interval_cases m
    all_goals simp [daysInMonth]
    all_goals omega

/-- Every date of the calendar is the date of a place. -/
theorem exists_date {date : CivilDate} (valid : date.isValid = true) :
    ∃ (place : Place) (era : Int), place.date era = date := by
  obtain ⟨inMonth, days, leap⟩ := dayOfYear_mem valid
  obtain ⟨inYear, starts, -⟩ := mem_of_isValid valid
  have closes : date.dayOfYear = 365 →
      date.marchYear % 400 % 4 = 3 ∧
        (date.marchYear % 400 % 100 / 4 = 24 → date.marchYear % 400 / 100 = 3) := by
    intro last
    have years := leap last
    simp [isLeap] at years
    omega
  let place : Place := ⟨date.marchYear % 400 / 100, date.marchYear % 400 % 100 / 4,
    date.marchYear % 400 % 4, date.dayOfYear, by omega, by omega, by omega, days, closes⟩
  refine ⟨place, date.marchYear / 400, ?_⟩
  have month : place.month = date.marchMonth := inMonth
  have year : place.yearOfCycle + date.marchYear / 400 * 400 = date.marchYear := by
    change 100 * (date.marchYear % 400 / 100) + 4 * (date.marchYear % 400 % 100 / 4) +
      date.marchYear % 400 % 4 + date.marchYear / 400 * 400 = date.marchYear
    omega
  have day : place.dayOfMonth = date.day := by
    rw [dayOfMonth, month]
    change date.dayOfYear - _ + 1 = _
    rw [dayOfYear]
    omega
  have months : (if date.marchMonth < 10 then date.marchMonth + 3 else date.marchMonth - 9) =
      (date.month : Int) := by
    rw [marchMonth]
    split <;> split <;> omega
  have years : date.marchYear + (if (date.month : Int) ≤ 2 then 1 else 0) = date.year := by
    rw [marchYear]
    split <;> split <;> omega
  rw [Place.date, month, day, year, months, years, Int.toNat_natCast, Int.toNat_natCast]

end Place

/-- Every count of days is the count of a place in a cycle. -/
theorem exists_place (days : Int) :
    ∃ (place : Place) (era : Int), days = era * cycle + place.dayOfCycle - marchOrigin := by
  have positive : 0 < cycle := by decide
  obtain ⟨place, day⟩ := Place.exists_of_dayOfCycle
    (Int.emod_nonneg (days + marchOrigin) (by decide : cycle ≠ 0))
    (Int.emod_lt_of_pos (days + marchOrigin) positive)
  refine ⟨place, (days + marchOrigin) / cycle, ?_⟩
  have division := Int.mul_ediv_add_emod (days + marchOrigin) cycle
  rw [day, Int.mul_comm, division]
  omega

/-- The date of a count of days is one of the calendar. -/
theorem isValid_ofDays (days : Int) : (ofDays days).isValid = true := by
  obtain ⟨place, era, rfl⟩ := exists_place days
  rw [place.ofDays_eq_date]
  exact place.isValid_date era

/-- The date of a count of days is counted as that many days. -/
theorem toDays_ofDays (days : Int) : (ofDays days).toDays = days := by
  obtain ⟨place, era, rfl⟩ := exists_place days
  rw [place.ofDays_eq_date]
  exact place.toDays_date era

/-- A date of the calendar is the date of its count. -/
theorem ofDays_toDays {date : CivilDate} (valid : date.isValid = true) :
    ofDays date.toDays = date := by
  obtain ⟨place, era, rfl⟩ := Place.exists_date valid
  rw [place.toDays_date, place.ofDays_eq_date]

end TypedRecord.CivilDate
