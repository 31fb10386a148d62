import PocketShell.Calendar
import PocketShell.Proofs.Checked.Basic
import PocketShell.Text.Numeral

set_option autoImplicit false

/-! # The dates of all times can be computed

A time is held in a word of 64 bits, and so is all that its date is computed from; month and day are
then held in a byte each. For every time that a word holds, no sum or product is too large for a
word, no difference is negative, and the month has a name (`Checked.listingForm_eq`,
`Checked.fullForm_eq`).

What carries this is how far a day is from the start of its era, its year and its month. An era has
146097 days. The years of the era before that of the day are over (`Checked.daysBefore_le`), so the
day of the year is no negative number, and it is at most 366, so the month is one of twelve.
-/

namespace PocketShell.Checked

open Calendar (Date hourOf minuteOf secondOf)
open Text (maxWord)

/-! ## Eras, years and months -/

/-- The year of the era in which a day of the era lies. -/
def yearOf (dayOfEra : Nat) : Nat :=
  (dayOfEra - dayOfEra / 1460 + dayOfEra / 36524 - dayOfEra / 146096) / 365

/-- The number of days of an era before a year of it. -/
def daysBefore (year : Nat) : Nat := 365 * year + year / 4 - year / 100

variable {day : Nat}

theorem yearOf_lt (h : day < 146097) : yearOf day < 400 := by
  rw [yearOf]
  omega

/-- **The years before that of a day are over.** Such a year takes 365 days, and every fourth one
takes one more, unless it ends a century. -/
theorem daysBefore_le (h : day < 146097) : daysBefore (yearOf day) ≤ day := by
  obtain ⟨year, hyear⟩ : ∃ year, year = yearOf day := ⟨_, rfl⟩
  rw [← hyear, daysBefore]
  rw [yearOf] at hyear
  have hdays : 365 * year ≤ day - day / 1460 + day / 36524 - day / 146096 := by
    rw [hyear]
    exact Nat.mul_div_le _ _
  have hfour : year / 4 ≤ day / 1460 := by
    have hcentury : day / 36524 ≤ day / 1460 := Nat.div_le_div_left (by omega) (by omega)
    by_contra hlt
    omega
  have hcenturies : 100 * (day / 36524) ≤ year + 1 := by
    clear hdays hfour
    omega
  -- either the centuries before the day are over in the year, or it is the last year of one
  have hbalance : year / 4 + day / 36524 ≤ day / 1460 + year / 100 := by
    have hquarters : 25 * (day / 36524) ≤ day / 1460 := by omega
    clear hdays hyear h
    by_cases hover : day / 36524 ≤ year / 100
    · omega
    · have hlast : year + 1 = 100 * (day / 36524) := by omega
      omega
  clear hfour hcenturies hyear
  omega

/-- A day is at most 366 days after the start of its year. -/
theorem sub_daysBefore_le (h : day < 146097) : day - daysBefore (yearOf day) ≤ 366 := by
  rw [yearOf, daysBefore]
  omega

/-- The month of a day of the year, counted from March. -/
def monthOf (dayOfYear : Nat) : Nat := (5 * dayOfYear + 2) / 153

/-- The number of a month that is counted from March. -/
def monthNumber (month : Nat) : Nat := if month < 10 then month + 3 else month - 9

/-- The day of the month of a day of the year. -/
def dayOfMonth (dayOfYear : Nat) : Nat := dayOfYear - (153 * monthOf dayOfYear + 2) / 5 + 1

/-- **The month of a day is one of twelve.** -/
theorem monthNumber_mem (h : day ≤ 366) :
    1 ≤ monthNumber (monthOf day) ∧ monthNumber (monthOf day) ≤ 12 := by
  have hmonth : monthOf day ≤ 11 := by
    rw [monthOf]
    omega
  rw [monthNumber]
  split_ifs <;> omega

theorem dayOfMonth_le (day : Nat) : dayOfMonth day ≤ 31 := by
  rw [dayOfMonth, monthOf]
  omega

/-- The date of a day number, in terms of these. -/
theorem dateOfDay_eq_parts (days : Nat) :
    let dayOfEra := (days + 719468) % 146097
    let dayOfYear := dayOfEra - daysBefore (yearOf dayOfEra)
    Calendar.dateOfDay days = {
      year := yearOf dayOfEra + (days + 719468) / 146097 * 400
        + if monthNumber (monthOf dayOfYear) ≤ 2 then 1 else 0
      month := monthNumber (monthOf dayOfYear)
      day := dayOfMonth dayOfYear } := by
  have hrem : (days + 719468) % 146097 = days + 719468 - (days + 719468) / 146097 * 146097 := by
    omega
  rw [hrem]
  rfl

/-! ## Computing in words -/

/-- The day of the era of a day, computed in words. -/
def dayOfEra (shifted : Nat) : Option Nat := do
  sub shifted (← mul maxWord (shifted / 146097) 146097)

/-- The year of the era of a day of it, and the day of the year, computed in words. -/
def dayOfYear (dayOfEra : Nat) : Option (Nat × Nat) := do
  let fourths ← sub dayOfEra (dayOfEra / 1460)
  let centuries ← add maxWord fourths (dayOfEra / 36524)
  let year := (← sub centuries (dayOfEra / 146096)) / 365
  let before ← add maxWord (← mul maxWord 365 year) (year / 4)
  let day ← sub dayOfEra (← sub before (year / 100))
  return (year, day)

/-- The month and the day of the month of a day of the year, computed in words. -/
def monthAndDay (dayOfYear : Nat) : Option (Nat × Nat) := do
  let month := (← add maxWord (← mul maxWord 5 dayOfYear) 2) / 153
  let before := (← add maxWord (← mul maxWord 153 month) 2) / 5
  let day ← add maxWord (← sub dayOfYear before) 1
  let month ← if month < 10 then add maxWord month 3 else sub month 9
  return (month, day)

/-- The year of a month in a year of an era, computed in words: January and February are of the year
after that in which they are counted. -/
def yearNumber (era year month : Nat) : Option Nat := do
  let years ← add maxWord year (← mul maxWord era 400)
  add maxWord years (if month ≤ 2 then 1 else 0)

/-- The date of a day number, computed in words; month and day are cut down to a byte each. -/
def dateOfDay (days : Nat) : Option Date := do
  let shifted ← add maxWord days 719468
  let (yearOfEra, dayOfYear) ← dayOfYear (← dayOfEra shifted)
  let (month, day) ← monthAndDay dayOfYear
  let year ← yearNumber (shifted / 146097) yearOfEra month
  return { year, month := month % 256, day := day % 256 }

theorem dayOfEra_eq {shifted : Nat} (h : shifted ≤ maxWord) :
    dayOfEra shifted = some (shifted % 146097) := by
  have hmul : shifted / 146097 * 146097 ≤ shifted := Nat.div_mul_le_self _ _
  have hrem : shifted - shifted / 146097 * 146097 = shifted % 146097 := by omega
  rw [dayOfEra, mul_eq (le_trans hmul h), Option.bind_eq_bind, Option.bind_some, sub_eq hmul, hrem]

theorem dayOfYear_eq (h : day < 146097) :
    dayOfYear day = some (yearOf day, day - daysBefore (yearOf day)) := by
  have hword : 1000000 ≤ maxWord := by decide
  have hyear := yearOf_lt h
  have hbefore := daysBefore_le h
  rw [daysBefore] at hbefore
  rw [dayOfYear, sub_eq (by omega)]
  simp only [Option.bind_eq_bind, Option.bind_some]
  rw [add_eq (by omega), Option.bind_some, sub_eq (by omega), Option.bind_some]
  show (mul maxWord 365 (yearOf day)).bind _ = _
  rw [mul_eq (by omega), Option.bind_some]
  show (add maxWord _ (yearOf day / 4)).bind _ = _
  rw [add_eq (by omega), Option.bind_some]
  show (sub _ (yearOf day / 100)).bind _ = _
  rw [sub_eq (by omega), Option.bind_some, sub_eq hbefore]
  rfl

theorem monthAndDay_eq (h : day ≤ 366) :
    monthAndDay day = some (monthNumber (monthOf day), dayOfMonth day) := by
  have hword : 1000000 ≤ maxWord := by decide
  have hmonth : monthOf day ≤ 11 := by
    rw [monthOf]
    omega
  have hbefore : (153 * monthOf day + 2) / 5 ≤ day := by
    rw [monthOf]
    omega
  rw [monthAndDay, mul_eq (by omega)]
  simp only [Option.bind_eq_bind, Option.bind_some]
  rw [add_eq (by omega), Option.bind_some, ← monthOf, mul_eq (by omega), Option.bind_some,
    add_eq (by omega), Option.bind_some, sub_eq hbefore, Option.bind_some, add_eq (by omega),
    Option.bind_some, monthNumber]
  split_ifs with hlt
  · rw [add_eq (by omega)]
    rfl
  · rw [sub_eq (by omega)]
    rfl

theorem yearNumber_eq {shifted year : Nat} (h : shifted ≤ maxWord) (hyear : year < 400)
    (month : Nat) :
    yearNumber (shifted / 146097) year month
      = some (year + shifted / 146097 * 400 + if month ≤ 2 then 1 else 0) := by
  have hword : 1000000 ≤ maxWord := by decide
  have hlate : (if month ≤ 2 then 1 else 0) ≤ 1 := by split_ifs <;> omega
  have heras : shifted / 146097 * 400 ≤ maxWord := by omega
  have hyears : year + shifted / 146097 * 400 ≤ maxWord := by omega
  have hall : year + shifted / 146097 * 400 + (if month ≤ 2 then 1 else 0) ≤ maxWord := by omega
  rw [yearNumber, mul_eq heras]
  simp only [Option.bind_eq_bind, Option.bind_some]
  rw [add_eq hyears, Option.bind_some, add_eq hall]

/-- **Each day that a word can count has a date.** -/
theorem dateOfDay_eq {days : Nat} (h : days + 719468 ≤ maxWord) :
    dateOfDay days = some (Calendar.dateOfDay days) := by
  rw [dateOfDay_eq_parts, dateOfDay, add_eq h, Option.bind_eq_bind, Option.bind_some]
  generalize days + 719468 = shifted at h
  have hday : shifted % 146097 < 146097 := Nat.mod_lt _ (by omega)
  have hdayOfYear := sub_daysBefore_le hday
  have hmonth := monthNumber_mem hdayOfYear
  have hlast := dayOfMonth_le (shifted % 146097 - daysBefore (yearOf (shifted % 146097)))
  have hmonth := Nat.mod_eq_of_lt (Nat.lt_of_le_of_lt hmonth.2 (by decide : 12 < 256))
  have hlast := Nat.mod_eq_of_lt (Nat.lt_of_le_of_lt hlast (by decide : 31 < 256))
  simp only [Option.bind_eq_bind]
  rw [dayOfEra_eq h, Option.bind_some, dayOfYear_eq hday, Option.bind_some]
  dsimp only
  rw [monthAndDay_eq hdayOfYear, Option.bind_some]
  dsimp only
  rw [yearNumber_eq h (yearOf_lt hday), Option.bind_some, hmonth, hlast]
  rfl

/-! ## Times as text -/

/-- A time as a listing shows it. The name of the month is looked up in the list of names. -/
def listingForm (seconds : Nat) : Option String := do
  let date ← dateOfDay (seconds / 86400)
  let name ← Calendar.monthNames[← sub date.month 1]?
  return s!"{name} {Text.alignRight 2 (toString date.day)} " ++
    s!"{Text.zeroFilled 2 (hourOf seconds)}:{Text.zeroFilled 2 (minuteOf seconds)}"

/-- A time with all its parts. -/
def fullForm (seconds : Nat) : Option String := do
  let date ← dateOfDay (seconds / 86400)
  return s!"{Text.zeroFilled 4 date.year}-{Text.zeroFilled 2 date.month}-" ++
    s!"{Text.zeroFilled 2 date.day} {Text.zeroFilled 2 (hourOf seconds)}:" ++
    s!"{Text.zeroFilled 2 (minuteOf seconds)}:{Text.zeroFilled 2 (secondOf seconds)}"

variable {seconds : Nat}

theorem dateOfDay_div_eq (h : seconds ≤ maxWord) :
    dateOfDay (seconds / 86400) = some (Calendar.dateOf seconds) := by
  have hword : maxWord = 18446744073709551615 := rfl
  rw [Calendar.dateOf, Calendar.secondsPerDay]
  exact dateOfDay_eq (by omega)

theorem month_dateOfDay_mem (days : Nat) :
    1 ≤ (Calendar.dateOfDay days).month ∧ (Calendar.dateOfDay days).month ≤ 12 := by
  rw [dateOfDay_eq_parts]
  exact monthNumber_mem (sub_daysBefore_le (Nat.mod_lt _ (by omega)))

theorem getElem?_monthNames {month : Nat} (h : 1 ≤ month ∧ month ≤ 12) :
    Calendar.monthNames[month - 1]? = some (Calendar.monthName month) := by
  have hlt : month - 1 < Calendar.monthNames.length := by
    show month - 1 < 12
    omega
  rw [Calendar.monthName, List.getD_eq_getElem?_getD, List.getElem?_eq_getElem hlt]
  rfl

/-- **The month of each time has a name.** -/
theorem listingForm_eq (h : seconds ≤ maxWord) :
    listingForm seconds = some (Calendar.listingForm seconds) := by
  have hmonth : 1 ≤ (Calendar.dateOf seconds).month ∧ (Calendar.dateOf seconds).month ≤ 12 :=
    month_dateOfDay_mem (seconds / Calendar.secondsPerDay)
  rw [listingForm, dateOfDay_div_eq h, Calendar.listingForm]
  generalize Calendar.dateOf seconds = date at hmonth ⊢
  simp only [Option.bind_eq_bind]
  rw [Option.bind_some, sub_eq hmonth.1, Option.bind_some, getElem?_monthNames hmonth]
  rfl

theorem fullForm_eq (h : seconds ≤ maxWord) :
    fullForm seconds = some (Calendar.fullForm seconds) := by
  rw [fullForm, dateOfDay_div_eq h]
  rfl

end PocketShell.Checked
