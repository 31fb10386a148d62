import PocketShell.Proofs.Calendar.Gregorian
import PocketShell.Proofs.Text.Numeral

set_option autoImplicit false

/-! # Times are read back from their texts

Both texts of a time can be read: the one of a listing gives a month, a day, an hour and a minute
(`readListing`), the other one a date and a time to the second (`readFull`). Each gives what the text
was made from, so the two texts of one time agree (`readListing_listingForm`, `readFull_fullForm`).

The reason is that numbers are read back from their digits, however many zeros stand in front
(`Text.digits?_zeros`), and that numbers below a hundred take two places.

For every time that a word holds, the texts can be computed within words and tell one date of the
Gregorian calendar, from which the day is found again (`dateOfDay_gregorian`).
-/

namespace PocketShell

/-! ## Numbers in columns -/

namespace Text

theorem toList_zeroFilled (width n : Nat) :
    (zeroFilled width n).toList
      = List.replicate (width - (Nat.toDigits 10 n).length) '0' ++ Nat.toDigits 10 n := by
  rw [zeroFilled, String.toList_ofList, Nat.toString_eq_ofList_toDigits, String.toList_ofList]

theorem digits?_zeroFilled (width n : Nat) : digits? (zeroFilled width n).toList = some n := by
  rw [toList_zeroFilled]
  exact digits?_zeros _ n

/-- A number below a hundred has one digit or two. -/
theorem toDigits_cases {n : Nat} (h : n < 100) :
    (∃ digit, Nat.toDigits 10 n = [digit]) ∨ ∃ tens units, Nat.toDigits 10 n = [tens, units] := by
  rw [Nat.toDigits_eq_if (by decide)]
  split_ifs with hsmall
  · exact .inl ⟨_, rfl⟩
  · rw [Nat.toDigits_of_lt_base (by omega)]
    exact .inr ⟨_, _, rfl⟩

/-- A number below a hundred takes two places. -/
theorem exists_zeroFilled {n : Nat} (h : n < 100) :
    ∃ tens units, (zeroFilled 2 n).toList = [tens, units] ∧ digits? [tens, units] = some n := by
  have hread := digits?_zeroFilled 2 n
  rcases toDigits_cases h with ⟨digit, hdigits⟩ | ⟨tens, units, hdigits⟩
  · rw [toList_zeroFilled, hdigits] at hread ⊢
    exact ⟨_, _, rfl, hread⟩
  · rw [toList_zeroFilled, hdigits] at hread ⊢
    exact ⟨_, _, rfl, hread⟩

/-- In a column of two places there is a blank in front of a number below ten. -/
theorem exists_alignRight {n : Nat} (h : n < 100) :
    ∃ tens units, (alignRight 2 (toString n)).toList = [tens, units] ∧
      digits? (if tens = ' ' then [units] else [tens, units]) = some n := by
  have hread := digits?_toDigits n
  have hall := all_isDigit_toDigits n
  have htext : (alignRight 2 (toString n)).toList
      = List.replicate (2 - (Nat.toDigits 10 n).length) ' ' ++ Nat.toDigits 10 n := by
    rw [alignRight, String.toList_ofList, Nat.toString_eq_ofList_toDigits, String.toList_ofList]
  rw [htext]
  rcases toDigits_cases h with ⟨digit, hdigits⟩ | ⟨tens, units, hdigits⟩
  · rw [hdigits] at hread ⊢
    exact ⟨' ', digit, rfl, hread⟩
  · -- a digit is no blank
    rw [hdigits] at hread hall ⊢
    have hne : tens ≠ ' ' := by
      rintro rfl
      cases hall
    exact ⟨tens, units, rfl, by rwa [if_neg hne]⟩

end Text

namespace Calendar

open Text (digits? digits?_zeroFilled maxWord)

/-! ## Reading a time -/

/-- What a listing tells of a time. -/
structure ListedTime where
  month : Nat
  day : Nat
  hour : Nat
  minute : Nat
deriving DecidableEq, Repr

/-- What the text with all parts tells of a time. -/
structure FullTime where
  date : Date
  hour : Nat
  minute : Nat
  second : Nat
deriving DecidableEq, Repr

/-- The time without what a listing leaves out. -/
def FullTime.listed (time : FullTime) : ListedTime :=
  { month := time.date.month, day := time.date.day, hour := time.hour, minute := time.minute }

/-- Reads a time as a listing shows it. -/
def readListing (text : String) : Option ListedTime :=
  match text.toList with
  | [a, b, c, ' ', d, e, ' ', f, g, ':', h, i] => do
      let month ← monthNames.findIdx? (· == String.ofList [a, b, c])
      let day ← digits? (if d = ' ' then [e] else [d, e])
      return { month := month + 1, day, hour := ← digits? [f, g], minute := ← digits? [h, i] }
  | _ => none

/-- Reads a time with all its parts. The year is what stands before the rest. -/
def readFull (text : String) : Option FullTime :=
  match text.toList.reverse with
  | k :: j :: ':' :: i :: h :: ':' :: g :: f :: ' ' :: e :: d :: '-' :: c :: b :: '-' :: year => do
      let date : Date :=
        { year := ← digits? year.reverse, month := ← digits? [b, c], day := ← digits? [d, e] }
      return { date, hour := ← digits? [f, g], minute := ← digits? [h, i], second := ← digits? [j, k] }
  | _ => none

/-! ## Reading back -/

/-- The time with all its parts. -/
def fullTime (seconds : Nat) : FullTime where
  date := dateOf seconds
  hour := hourOf seconds
  minute := minuteOf seconds
  second := secondOf seconds

theorem hourOf_lt (seconds : Nat) : hourOf seconds < 24 := by
  rw [hourOf, secondsPerDay]
  omega

theorem minuteOf_lt (seconds : Nat) : minuteOf seconds < 60 := by
  rw [minuteOf, secondsPerDay]
  omega

theorem secondOf_lt (seconds : Nat) : secondOf seconds < 60 := by
  rw [secondOf, secondsPerDay]
  omega

theorem day_dateOf_lt (seconds : Nat) : (dateOf seconds).day < 100 := by
  rw [dateOf, Checked.dateOfDay_eq_parts]
  exact Nat.lt_of_le_of_lt (Checked.dayOfMonth_le _) (by decide)

theorem month_dateOf_mem (seconds : Nat) :
    1 ≤ (dateOf seconds).month ∧ (dateOf seconds).month ≤ 12 := by
  rw [dateOf]
  exact Checked.month_dateOfDay_mem _

/-- **The names of the months differ**, and have three letters each. -/
theorem exists_monthName {month : Nat} (h : 1 ≤ month ∧ month ≤ 12) :
    ∃ a b c, (monthName month).toList = [a, b, c] ∧
      monthNames.findIdx? (· == String.ofList [a, b, c]) = some (month - 1) := by
  obtain ⟨hlow, hhigh⟩ := h
  interval_cases month <;> exact ⟨_, _, _, rfl, by decide⟩

variable {date : Date} {hour minute second : Nat}

/-- The parts of a time are read back from the text in which a listing puts them. -/
theorem readListing_text (hmonth : 1 ≤ date.month ∧ date.month ≤ 12) (hday : date.day < 100)
    (hhour : hour < 100) (hminute : minute < 100) :
    readListing (s!"{monthName date.month} {Text.alignRight 2 (toString date.day)} " ++
        s!"{Text.zeroFilled 2 hour}:{Text.zeroFilled 2 minute}")
      = some { month := date.month, day := date.day, hour, minute } := by
  obtain ⟨a, b, c, hname, hfind⟩ := exists_monthName hmonth
  obtain ⟨d, e, hday, hd⟩ := Text.exists_alignRight hday
  obtain ⟨f, g, hhour, hh⟩ := Text.exists_zeroFilled hhour
  obtain ⟨h, i, hminute, hm⟩ := Text.exists_zeroFilled hminute
  have htext : (s!"{monthName date.month} {Text.alignRight 2 (toString date.day)} " ++
      s!"{Text.zeroFilled 2 hour}:{Text.zeroFilled 2 minute}").toList
        = [a, b, c, ' ', d, e, ' ', f, g, ':', h, i] := by
    show (monthName date.month ++ " " ++ Text.alignRight 2 (toString date.day) ++ " " ++
      (Text.zeroFilled 2 hour ++ ":" ++ Text.zeroFilled 2 minute)).toList = _
    simp only [String.toList_append, hname, hday, hhour, hminute]
    rfl
  simp only [readListing, htext, hfind, hd, hh, hm]
  show some _ = some _
  rw [Nat.sub_add_cancel hmonth.1]

/-- The parts of a time are read back from the text that puts all of them together. -/
theorem readFull_text (hmonth : date.month < 100) (hday : date.day < 100) (hhour : hour < 100)
    (hminute : minute < 100) (hsecond : second < 100) :
    readFull (s!"{Text.zeroFilled 4 date.year}-{Text.zeroFilled 2 date.month}-" ++
        s!"{Text.zeroFilled 2 date.day} {Text.zeroFilled 2 hour}:" ++
        s!"{Text.zeroFilled 2 minute}:{Text.zeroFilled 2 second}")
      = some { date, hour, minute, second } := by
  obtain ⟨b, c, hmonth, ho⟩ := Text.exists_zeroFilled hmonth
  obtain ⟨d, e, hday, hd⟩ := Text.exists_zeroFilled hday
  obtain ⟨f, g, hhour, hh⟩ := Text.exists_zeroFilled hhour
  obtain ⟨h, i, hminute, hm⟩ := Text.exists_zeroFilled hminute
  obtain ⟨j, k, hsecond, hs⟩ := Text.exists_zeroFilled hsecond
  have hy := digits?_zeroFilled 4 date.year
  generalize hyear : (Text.zeroFilled 4 date.year).toList = year at hy
  -- from its end on, the text has fixed places up to the year
  have htext : (s!"{Text.zeroFilled 4 date.year}-{Text.zeroFilled 2 date.month}-" ++
      s!"{Text.zeroFilled 2 date.day} {Text.zeroFilled 2 hour}:" ++
      s!"{Text.zeroFilled 2 minute}:{Text.zeroFilled 2 second}").toList.reverse
        = k :: j :: ':' :: i :: h :: ':' :: g :: f :: ' ' :: e :: d :: '-' :: c :: b :: '-'
          :: year.reverse := by
    show (Text.zeroFilled 4 date.year ++ "-" ++ Text.zeroFilled 2 date.month ++ "-" ++
      (Text.zeroFilled 2 date.day ++ " " ++ Text.zeroFilled 2 hour ++ ":") ++
      (Text.zeroFilled 2 minute ++ ":" ++ Text.zeroFilled 2 second)).toList.reverse = _
    simp only [String.toList_append, hyear, hmonth, hday, hhour, hminute, hsecond,
      List.reverse_append]
    rfl
  simp only [readFull, htext, List.reverse_reverse, hy, ho, hd, hh, hm, hs]
  rfl

/-- **A time is read back from a listing.** -/
theorem readListing_listingForm (seconds : Nat) :
    readListing (listingForm seconds) = some (fullTime seconds).listed :=
  readListing_text (month_dateOf_mem seconds) (day_dateOf_lt seconds)
    (lt_trans (hourOf_lt seconds) (by decide)) (lt_trans (minuteOf_lt seconds) (by decide))

/-- **A time is read back from the text with all its parts.** -/
theorem readFull_fullForm (seconds : Nat) :
    readFull (fullForm seconds) = some (fullTime seconds) :=
  readFull_text (Nat.lt_of_le_of_lt (month_dateOf_mem seconds).2 (by decide)) (day_dateOf_lt seconds)
    (lt_trans (hourOf_lt seconds) (by decide)) (lt_trans (minuteOf_lt seconds) (by decide))
    (lt_trans (secondOf_lt seconds) (by decide))

/-! ## The result -/

/-- **Dates are those of the Gregorian calendar.** The first day is the first of January 1970, and
every day that the time of a word reaches has a date, computed within words: one that the calendar
has, followed by the next date of the calendar, and from which the day is found again. The two texts
of a time that a word holds tell the same month, day, hour and minute, and the full one tells the
date. -/
theorem dateOfDay_gregorian {days : Nat} (h : days ≤ maxWord / secondsPerDay) :
    dateOfDay 0 = { year := 1970, month := 1, day := 1 } ∧
      Checked.dateOfDay days = some (dateOfDay days) ∧
      (dateOfDay days).IsValid ∧
      dateOfDay (days + 1) = (dateOfDay days).next ∧
      (dateOfDay days).dayNumber = days ∧
      ∀ seconds ≤ maxWord, ∃ listing full time,
        Checked.listingForm seconds = some listing ∧ Checked.fullForm seconds = some full ∧
          readListing listing = some time.listed ∧ readFull full = some time ∧
          time.date.dayNumber = seconds / secondsPerDay := by
  have hword : days + 719468 ≤ maxWord := by
    have hmax : maxWord / secondsPerDay = 213503982334601 := rfl
    have hroom : 213503982334601 + 719468 ≤ maxWord := by decide
    omega
  refine ⟨rfl, Checked.dateOfDay_eq hword, isValid_dateOfDay days, dateOfDay_succ days,
    dayNumber_dateOfDay days, ?_⟩
  intro seconds hseconds
  exact ⟨_, _, fullTime seconds, Checked.listingForm_eq hseconds, Checked.fullForm_eq hseconds,
    readListing_listingForm seconds, readFull_fullForm seconds, dayNumber_dateOfDay _⟩

/-- The last day that the time of a word reaches, and its first moment. -/
theorem dateOfDay_gregorian_last :
    let days := 213503982334601
    days ≤ maxWord / secondsPerDay ∧
      dateOfDay days = { year := 584554051223, month := 11, day := 9 } ∧
      Checked.dateOfDay days = some (dateOfDay days) ∧
      (dateOfDay days).IsValid ∧
      dateOfDay (days + 1) = { year := 584554051223, month := 11, day := 10 } ∧
      (dateOfDay days).dayNumber = days ∧
      ∃ listing full time,
        Checked.listingForm maxWord = some listing ∧ Checked.fullForm maxWord = some full ∧
          readListing listing = some time.listed ∧ readFull full = some time ∧
          time.date.dayNumber = days := by
  intro days
  have hle : days ≤ maxWord / secondsPerDay := by decide
  have hdate : dateOfDay days = { year := 584554051223, month := 11, day := 9 } := by decide
  obtain ⟨-, hchecked, hvalid, hnext, hnumber, htexts⟩ := dateOfDay_gregorian hle
  refine ⟨hle, hdate, hchecked, hvalid, ?_, hnumber, htexts maxWord (Nat.le_refl _)⟩
  rw [hnext, hdate]
  decide

end Calendar

end PocketShell
