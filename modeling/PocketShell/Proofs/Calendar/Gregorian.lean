import PocketShell.Proofs.Checked.Calendar

set_option autoImplicit false

/-! # The Gregorian calendar

The rules of the calendar as they are usually told: which years are leap years, how long the months
are, which day follows a day (`Date.next`), and how many days lie between the start of 1970 and a date
(`Date.dayNumber`). The closed form `dateOfDay` obeys them: each of its dates is one of the calendar
(`isValid_dateOfDay`), the day after has the next date (`dateOfDay_succ`), and the number of a day is
the one that is counted from its date (`dayNumber_dateOfDay`).

The closed form counts years from March, so that a leap day is the last day of its year. A day is
thus a March year and a number of days in it (`ofMarch`). Its date is determined from the two by a
table of months (`next_ofMarch`), and the two from the number of the day by the lengths of the years of
an era (`yearOf_eq_iff`). At both levels, one more day is either the next day of the same stretch or the
first one of the next stretch.
-/

namespace PocketShell.Calendar

open Checked (yearOf daysBefore monthOf monthNumber dayOfMonth)

/-! ## The rules of the calendar -/

/-- Whether a year has a leap day: every fourth year has, but of the years that end a century only
every fourth. -/
def isLeapYear (year : Nat) : Bool := year % 4 = 0 && (year % 100 ≠ 0 || year % 400 = 0)

/-- The number of days of a month. -/
def monthLength (year month : Nat) : Nat :=
  if month = 2 then if isLeapYear year then 29 else 28
  else if month ∈ [4, 6, 9, 11] then 30
  else 31

/-- The number of days of a year. -/
def yearLength (year : Nat) : Nat := if isLeapYear year then 366 else 365

namespace Date

/-- **A date of the calendar**: one of twelve months, and a day that the month has. -/
structure IsValid (date : Date) : Prop where
  one_le_month : 1 ≤ date.month
  month_le : date.month ≤ 12
  one_le_day : 1 ≤ date.day
  day_le : date.day ≤ monthLength date.year date.month

/-- **The date of the next day.** -/
def next (date : Date) : Date :=
  if date.day < monthLength date.year date.month then { date with day := date.day + 1 }
  else if date.month < 12 then { date with month := date.month + 1, day := 1 }
  else { year := date.year + 1, month := 1, day := 1 }

/-- The number of days of a year before a month of it. -/
def daysBeforeMonth (year month : Nat) : Nat :=
  ((List.range' 1 (month - 1)).map (monthLength year)).sum

/-- The number of days from the start of 1970 to the start of a later year. -/
def daysBeforeYear (year : Nat) : Nat := ((List.range' 1970 (year - 1970)).map yearLength).sum

/-- **The number of days from the start of 1970 to a date**, counted year by year and month by
month. -/
def dayNumber (date : Date) : Nat :=
  daysBeforeYear date.year + daysBeforeMonth date.year date.month + (date.day - 1)

end Date

/-! ## Counting days -/

theorem sum_monthLength (year : Nat) :
    Date.daysBeforeMonth year 12 + monthLength year 12 = yearLength year := by
  rw [yearLength]
  cases h : isLeapYear year <;>
    simp [Date.daysBeforeMonth, List.range', monthLength, h]

theorem daysBeforeMonth_succ (year : Nat) {month : Nat} (h : 1 ≤ month) :
    Date.daysBeforeMonth year (month + 1)
      = Date.daysBeforeMonth year month + monthLength year month := by
  obtain ⟨before, rfl⟩ := Nat.exists_eq_add_of_le h
  simp only [Date.daysBeforeMonth, Nat.add_sub_cancel, Nat.add_sub_cancel_left]
  rw [Nat.add_comm 1 before, List.range'_concat, List.map_append, List.sum_append]
  simp [Nat.add_comm]

theorem daysBeforeYear_succ {year : Nat} (h : 1970 ≤ year) :
    Date.daysBeforeYear (year + 1) = Date.daysBeforeYear year + yearLength year := by
  obtain ⟨after, rfl⟩ := Nat.exists_eq_add_of_le h
  have hlength : 1970 + after + 1 - 1970 = after + 1 := by omega
  rw [Date.daysBeforeYear, Date.daysBeforeYear, hlength, Nat.add_sub_cancel_left,
    List.range'_concat, List.map_append, List.sum_append]
  simp

/-- **The next day has the next number.** -/
theorem Date.IsValid.dayNumber_next {date : Date} (h : date.IsValid) (hyear : 1970 ≤ date.year) :
    date.next.dayNumber = date.dayNumber + 1 := by
  obtain ⟨year, month, day⟩ := date
  obtain ⟨hmonth, hmonths, hday, hdays⟩ := h
  dsimp only at hmonth hmonths hday hdays hyear
  rw [next]
  dsimp only
  split_ifs with hinside hbefore
  · simp only [dayNumber]
    omega
  · -- the first day of the next month
    obtain rfl : day = monthLength year month := by omega
    simp only [dayNumber, daysBeforeMonth_succ year hmonth]
    omega
  · -- the first day of the next year
    obtain rfl : month = 12 := by omega
    obtain rfl : day = monthLength year 12 := by omega
    have hsum := sum_monthLength year
    have hfirst : daysBeforeMonth (year + 1) 1 = 0 := rfl
    simp only [dayNumber, daysBeforeYear_succ hyear, hfirst]
    omega

theorem year_le_next (date : Date) : date.year ≤ date.next.year := by
  rw [Date.next]
  split_ifs
  · exact Nat.le_refl _
  · exact Nat.le_refl _
  · exact Nat.le_succ _

/-! ## Months counted from March -/

/-- The number of days of a March year before a month of it, which is counted from March as well. -/
def monthStart (month : Nat) : Nat := (153 * month + 2) / 5

/-- The number of days of the March year that begins in a year. Its leap day is one of the next
year. -/
def marchYearLength (year : Nat) : Nat := yearLength (year + 1)

/-- The date of a day of a March year. -/
def ofMarch (year day : Nat) : Date where
  year := year + if monthNumber (monthOf day) ≤ 2 then 1 else 0
  month := monthNumber (monthOf day)
  day := dayOfMonth day

theorem monthOf_eq_iff (day month : Nat) :
    monthOf day = month ↔ monthStart month ≤ day ∧ day < monthStart (month + 1) := by
  rw [monthOf, monthStart, monthStart]
  omega

theorem marchYearLength_mem (year : Nat) :
    365 ≤ marchYearLength year ∧ marchYearLength year ≤ 366 := by
  rw [marchYearLength, yearLength]
  split_ifs <;> omega

/-- The date of a day in a month counted from March. -/
theorem ofMarch_eq {month day : Nat} (h : monthOf day = month) (year : Nat) :
    ofMarch year day = {
      year := year + if monthNumber month ≤ 2 then 1 else 0
      month := monthNumber month
      day := day - monthStart month + 1 } := by
  rw [ofMarch, dayOfMonth, h]
  rfl

/-- **A month ends where the next one begins**, and February with the year. -/
theorem monthStart_add_monthLength (year : Nat) {month : Nat} (h : month ≤ 11) :
    monthStart month
        + monthLength (year + if monthNumber month ≤ 2 then 1 else 0) (monthNumber month)
      = min (monthStart (month + 1)) (marchYearLength year) := by
  rcases Nat.lt_or_eq_of_le h with hlt | rfl
  · -- the lengths from March to January are the same in every year
    have hlong := (marchYearLength_mem year).1
    have hlength : ∀ other, monthStart month + monthLength other (monthNumber month)
        = monthStart (month + 1) := by
      intro other
      interval_cases month <;> rfl
    rw [hlength, monthStart]
    omega
  · rw [marchYearLength, yearLength]
    show 337 + monthLength (year + 1) 2 = min 367 _
    rw [monthLength, if_pos rfl]
    split_ifs <;> rfl

/-- A day of a March year lies in one of its months. -/
theorem exists_monthOf {year day : Nat} (h : day < marchYearLength year) :
    ∃ month ≤ 11, monthOf day = month ∧ monthStart month ≤ day ∧ day < monthStart (month + 1) := by
  have hlong := (marchYearLength_mem year).2
  refine ⟨monthOf day, ?_, rfl, (monthOf_eq_iff day _).mp rfl⟩
  rw [monthOf]
  omega

theorem isValid_ofMarch {year day : Nat} (h : day < marchYearLength year) :
    (ofMarch year day).IsValid := by
  obtain ⟨month, hle, hmonth, hstart, hend⟩ := exists_monthOf h
  have hlength := monthStart_add_monthLength year hle
  rw [ofMarch_eq hmonth]
  refine ⟨?_, ?_, Nat.succ_pos _, ?_⟩
  · show 1 ≤ monthNumber month
    rw [monthNumber]
    split_ifs <;> omega
  · show monthNumber month ≤ 12
    rw [monthNumber]
    split_ifs <;> omega
  · dsimp only
    omega

/-- **The next day of a March year**, or the first one of the next. -/
theorem next_ofMarch {year day : Nat} (h : day < marchYearLength year) :
    (ofMarch year day).next
      = if day + 1 < marchYearLength year then ofMarch year (day + 1) else ofMarch (year + 1) 0 := by
  obtain ⟨month, hle, hmonth, hstart, hend⟩ := exists_monthOf h
  have hlength := monthStart_add_monthLength year hle
  rw [ofMarch_eq hmonth, Date.next]
  dsimp only
  by_cases hinside : day + 1 < min (monthStart (month + 1)) (marchYearLength year)
  · -- the month goes on
    obtain ⟨hmonthGoes, hyearGoes⟩ := lt_min_iff.mp hinside
    have hsame : monthOf (day + 1) = month := (monthOf_eq_iff _ _).mpr ⟨by omega, hmonthGoes⟩
    rw [if_pos (by omega), if_pos hyearGoes, ofMarch_eq hsame, Nat.sub_add_comm hstart]
  · rw [if_neg (by omega)]
    rcases Nat.lt_or_eq_of_le hle with hlt | rfl
    · -- the next month begins
      have hlong := (marchYearLength_mem year).1
      have hnext : day + 1 = monthStart (month + 1) := by
        rw [monthStart] at hend hinside ⊢
        omega
      have hsame : monthOf (day + 1) = month + 1 := by
        rw [monthOf_eq_iff, hnext, monthStart, monthStart]
        omega
      have hyearGoes : day + 1 < marchYearLength year := by
        rw [hnext, monthStart]
        omega
      rw [if_pos hyearGoes, ofMarch_eq hsame, hnext, Nat.sub_self]
      interval_cases month <;> rfl
    · -- February ends, and the March year with it
      have hlast : ¬ day + 1 < marchYearLength year := by
        have hbound : marchYearLength year ≤ monthStart 12 :=
          le_trans (marchYearLength_mem year).2 (by decide)
        rwa [min_eq_right hbound] at hinside
      rw [if_neg hlast]
      rfl

/-! ## Years of an era

The years of an era have 365 days each if its leap days are left out. So a day lies in the year that
their number tells (`withoutLeapDays_daysBefore`), since leaving them out keeps the order of days. -/

/-- The number of a day of an era, without the leap days before it. -/
def withoutLeapDays (day : Nat) : Nat := day - day / 1460 + day / 36524 - day / 146096

theorem yearOf_eq (day : Nat) : yearOf day = withoutLeapDays day / 365 := rfl

theorem withoutLeapDays_succ {day : Nat} (h : day + 1 < 146097) :
    withoutLeapDays day ≤ withoutLeapDays (day + 1) := by
  rw [withoutLeapDays, withoutLeapDays]
  omega

theorem withoutLeapDays_mono {day later : Nat} (hle : day ≤ later) (h : later < 146097) :
    withoutLeapDays day ≤ withoutLeapDays later := by
  induction later, hle using Nat.le_induction with
  | base => exact Nat.le_refl _
  | succ later _ ih => exact le_trans (ih (by omega)) (withoutLeapDays_succ h)

/-- **Without leap days every year has 365 days.** -/
theorem withoutLeapDays_daysBefore {year : Nat} (h : year < 400) :
    withoutLeapDays (daysBefore year) = 365 * year := by
  have hfour : daysBefore year / 1460 = year / 4 := by
    rw [daysBefore]
    omega
  have hcentury : daysBefore year / 36524 = year / 100 := by
    rw [daysBefore]
    omega
  have hera : daysBefore year / 146096 = 0 := by
    rw [daysBefore]
    omega
  rw [withoutLeapDays, hfour, hcentury, hera, daysBefore]
  omega

/-- The days before a year are those before the year that precedes it, and the days of that. -/
theorem daysBefore_succ {year : Nat} (h : year < 399) :
    daysBefore (year + 1) = daysBefore year + marchYearLength year := by
  rw [daysBefore, daysBefore, marchYearLength, yearLength, isLeapYear]
  split_ifs with hleap
  · simp only [Bool.and_eq_true, Bool.or_eq_true, decide_eq_true_eq] at hleap
    omega
  · simp only [Bool.and_eq_true, Bool.or_eq_true, decide_eq_true_eq] at hleap
    omega

theorem daysBefore_mono {year later : Nat} (h : year ≤ later) : daysBefore year ≤ daysBefore later := by
  induction later, h using Nat.le_induction with
  | base => exact Nat.le_refl _
  | succ later _ ih =>
      refine le_trans ih ?_
      rw [daysBefore, daysBefore]
      omega

/-- A day of an era is before the end of its year. -/
theorem lt_daysBefore_add {day : Nat} (h : day < 146097) :
    day < daysBefore (yearOf day) + marchYearLength (yearOf day) := by
  have hyear := Checked.yearOf_lt h
  rcases Nat.lt_or_ge (yearOf day) 399 with hlt | hge
  · rw [← daysBefore_succ hlt]
    by_contra hover
    have hdays := withoutLeapDays_mono (Nat.le_of_not_lt hover) h
    rw [withoutLeapDays_daysBefore (by omega)] at hdays
    rw [yearOf_eq] at hdays
    omega
  · -- the last year of the era, which has a leap day
    have hlast : yearOf day = 399 := by omega
    rw [hlast]
    exact h

/-- **The year of a day** is the one between whose start and end it lies. -/
theorem yearOf_eq_iff {day year : Nat} (h : day < 146097) (hyear : year < 400) :
    yearOf day = year ↔ daysBefore year ≤ day ∧ day < daysBefore year + marchYearLength year := by
  constructor
  · rintro rfl
    exact ⟨Checked.daysBefore_le h, lt_daysBefore_add h⟩
  · rintro ⟨hstart, hend⟩
    have hday := Checked.daysBefore_le h
    have hdayEnd := lt_daysBefore_add h
    have hlt := Checked.yearOf_lt h
    -- the years of the era do not overlap
    have hover : ∀ {early late : Nat}, early < late → late < 400 →
        daysBefore early + marchYearLength early ≤ daysBefore late := by
      intro early late hearly hlate
      rw [← daysBefore_succ (by omega)]
      exact daysBefore_mono hearly
    rcases Nat.lt_trichotomy (yearOf day) year with hbefore | heq | hafter
    · have := hover hbefore hyear
      omega
    · exact heq
    · have := hover hafter hlt
      omega

/-! ## The dates of days -/

theorem marchYearLength_add_eras (year eras : Nat) :
    marchYearLength (year + eras * 400) = marchYearLength year := by
  have hfour : (year + eras * 400 + 1) % 4 = (year + 1) % 4 := by omega
  have hcentury : (year + eras * 400 + 1) % 100 = (year + 1) % 100 := by omega
  have hera : (year + eras * 400 + 1) % 400 = (year + 1) % 400 := by omega
  rw [marchYearLength, marchYearLength, yearLength, yearLength, isLeapYear, isLeapYear, hfour,
    hcentury, hera]

/-- **A day is a day of a March year**, and this day has a date. -/
theorem exists_march (days : Nat) : ∃ era year day, year < 400 ∧ day < marchYearLength year ∧
    days + 719468 = era * 146097 + (daysBefore year + day) := by
  have h : (days + 719468) % 146097 < 146097 := Nat.mod_lt _ (by decide)
  have hstart := Checked.daysBefore_le h
  have hend := lt_daysBefore_add h
  refine ⟨(days + 719468) / 146097, yearOf ((days + 719468) % 146097),
    (days + 719468) % 146097 - daysBefore (yearOf ((days + 719468) % 146097)),
    Checked.yearOf_lt h, ?_, ?_⟩
  · omega
  · omega

/-- **The date of a day of a March year**, the years being counted over all eras. -/
theorem dateOfDay_of_march {days era year day : Nat} (hyear : year < 400)
    (hday : day < marchYearLength year)
    (h : days + 719468 = era * 146097 + (daysBefore year + day)) :
    dateOfDay days = ofMarch (year + era * 400) day := by
  have hera : daysBefore year + day < 146097 := by
    rcases Nat.lt_or_ge year 399 with hlt | hge
    · have hsucc := daysBefore_succ hlt
      have hmono := daysBefore_mono (show year + 1 ≤ 399 by omega)
      have hlast : daysBefore 399 = 145731 := rfl
      omega
    · obtain rfl : year = 399 := by omega
      have hlast : daysBefore 399 + marchYearLength 399 = 146097 := rfl
      omega
  have hmod : (days + 719468) % 146097 = daysBefore year + day := by omega
  have hdiv : (days + 719468) / 146097 = era := by omega
  have hof : yearOf (daysBefore year + day) = year :=
    (yearOf_eq_iff hera hyear).mpr ⟨Nat.le_add_right _ _, Nat.add_lt_add_left hday _⟩
  rw [Checked.dateOfDay_eq_parts, hmod, hdiv, hof, Nat.add_sub_cancel_left]
  rfl

/-- **Every day has a date of the calendar.** -/
theorem isValid_dateOfDay (days : Nat) : (dateOfDay days).IsValid := by
  obtain ⟨era, year, day, hyear, hday, h⟩ := exists_march days
  rw [dateOfDay_of_march hyear hday h]
  exact isValid_ofMarch (by rwa [marchYearLength_add_eras])

/-- **The day after has the next date.** -/
theorem dateOfDay_succ (days : Nat) : dateOfDay (days + 1) = (dateOfDay days).next := by
  obtain ⟨era, year, day, hyear, hday, h⟩ := exists_march days
  rw [dateOfDay_of_march hyear hday h, next_ofMarch (by rwa [marchYearLength_add_eras]),
    marchYearLength_add_eras]
  split_ifs with hinside
  · exact dateOfDay_of_march hyear hinside (by omega)
  · -- the first day of the next year, perhaps of the next era
    have hfirst : 0 < marchYearLength 0 := by decide
    rcases Nat.lt_or_eq_of_le (Nat.le_of_lt_succ hyear) with hlt | rfl
    · have hsucc := daysBefore_succ hlt
      have hlong := (marchYearLength_mem (year + 1)).1
      have hnext : days + 1 + 719468 = era * 146097 + (daysBefore (year + 1) + 0) := by omega
      rw [dateOfDay_of_march (by omega) (by omega) hnext, Nat.add_right_comm]
    · have hlast : daysBefore 399 + marchYearLength 399 = 146097 := rfl
      have hnext : days + 1 + 719468 = (era + 1) * 146097 + (daysBefore 0 + 0) := by
        have hzero : daysBefore 0 = 0 := rfl
        omega
      have hyears : 399 + era * 400 + 1 = 0 + (era + 1) * 400 := by omega
      rw [dateOfDay_of_march (by omega) hfirst hnext, hyears]

theorem le_year_dateOfDay (days : Nat) : 1970 ≤ (dateOfDay days).year := by
  induction days with
  | zero => decide
  | succ days ih =>
      rw [dateOfDay_succ]
      exact le_trans ih (year_le_next _)

/-- **The number of a day is the one counted from its date.** -/
theorem dayNumber_dateOfDay (days : Nat) : (dateOfDay days).dayNumber = days := by
  induction days with
  | zero => decide
  | succ days ih =>
      rw [dateOfDay_succ, (isValid_dateOfDay days).dayNumber_next (le_year_dateOfDay days), ih]

end PocketShell.Calendar
