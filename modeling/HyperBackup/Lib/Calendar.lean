import Mathlib.Data.Int.ConditionallyCompleteOrder
import Mathlib.Order.Monotone.Basic
import Mathlib.Tactic.IntervalCases

/-!
# The calendar

Days are numbered from 1970 on, and months are numbered through, month `m` of
year `y` being `12 * y + (m - 1)`.  What the calendar has to offer is then the
day on which a month begins, and the month in which a day lies; year, month and
day of a date are read off from these.

The leap years are those of the Gregorian calendar, also before it was in use.
-/

namespace Lib
namespace Calendar

section Months

def IsLeap (year : Int) : Prop :=
  year % 4 = 0 ∧ (year % 100 ≠ 0 ∨ year % 400 = 0)

instance (year : Int) : Decidable (IsLeap year) :=
  inferInstanceAs (Decidable (_ ∧ _))

/-- The length of a month, given its place in the year, counted from 0. -/
def lengthIn (leap : Prop) [Decidable leap] : Int → Int
  | 1 => if leap then 29 else 28
  | 3 => 30
  | 5 => 30
  | 8 => 30
  | 10 => 30
  | _ => 31

/-- The days of the year before a month. -/
def daysBefore : Int → Int
  | 0 => 0
  | 1 => 31
  | 2 => 59
  | 3 => 90
  | 4 => 120
  | 5 => 151
  | 6 => 181
  | 7 => 212
  | 8 => 243
  | 9 => 273
  | 10 => 304
  | _ => 334

def monthLength (k : Int) : Int :=
  lengthIn (IsLeap (k / 12)) (k % 12)

/-- The first day of a year. -/
def yearStart (year : Int) : Int :=
  365 * year + (year + 3) / 4 - (year + 99) / 100 + (year + 399) / 400 - 719528

/-- The first day of a month. -/
def monthStart (k : Int) : Int :=
  yearStart (k / 12) + daysBefore (k % 12) +
    (if 2 ≤ k % 12 ∧ IsLeap (k / 12) then 1 else 0)

theorem yearStart_succ (year : Int) :
    yearStart (year + 1) = yearStart year + (if IsLeap year then 366 else 365) := by
  unfold yearStart
  by_cases hleap : IsLeap year
  · rw [if_pos hleap]
    unfold IsLeap at hleap
    omega
  · rw [if_neg hleap]
    unfold IsLeap at hleap
    omega

theorem monthLength_bounds (k : Int) : 28 ≤ monthLength k ∧ monthLength k ≤ 31 := by
  unfold monthLength lengthIn
  split
  · split
    · omega
    · omega
  all_goals omega

/-- Each month begins where the one before it ends. -/
theorem monthStart_succ (k : Int) :
    monthStart (k + 1) = monthStart k + monthLength k := by
  obtain ⟨m, hm⟩ : ∃ m, k % 12 = m := ⟨_, rfl⟩
  have hm0 : 0 ≤ m := by omega
  have hm12 : m < 12 := by omega
  unfold monthStart monthLength
  rcases Int.lt_or_eq_of_le (Int.le_sub_one_of_lt hm12) with hlt | rfl
  · have hyear : (k + 1) / 12 = k / 12 := by omega
    have hmonth : (k + 1) % 12 = m + 1 := by omega
    rw [hyear, hmonth, hm]
    interval_cases m
    all_goals
      by_cases hleap : IsLeap (k / 12)
      · simp [daysBefore, lengthIn, hleap, Int.add_assoc]
      · simp [daysBefore, lengthIn, hleap, Int.add_assoc]
  · have hyear : (k + 1) / 12 = k / 12 + 1 := by omega
    have hmonth : (k + 1) % 12 = 0 := by omega
    rw [hyear, hmonth, hm, yearStart_succ]
    by_cases hleap : IsLeap (k / 12)
    · simp [daysBefore, lengthIn, hleap, Int.add_assoc]
    · simp [daysBefore, lengthIn, hleap, Int.add_assoc]

theorem strictMono_monthStart : StrictMono monthStart := by
  refine strictMono_int_of_lt_succ fun k => ?_
  have hlength := monthLength_bounds k
  rw [monthStart_succ]
  omega

/-- Four centuries have 4800 months and 146097 days, and no month is far from
where it would begin if all were of one length. -/
theorem monthStart_bounds (k : Int) :
    146097 * k - 146097 ≤ 4800 * (monthStart k + 719528) ∧
      4800 * (monthStart k + 719528) ≤ 146097 * k + 146097 := by
  obtain ⟨m, hm⟩ : ∃ m, k % 12 = m := ⟨_, rfl⟩
  have hm0 : 0 ≤ m := by omega
  have hm12 : m < 12 := by omega
  have hday : 0 ≤ (if 2 ≤ m ∧ IsLeap (k / 12) then (1 : Int) else 0) ∧
      (if 2 ≤ m ∧ IsLeap (k / 12) then (1 : Int) else 0) ≤ 1 := by
    split
    · omega
    · omega
  have hdays : 4800 * 30 * m - 4800 * 4 ≤ 4800 * daysBefore m ∧
      4800 * daysBefore m ≤ 4800 * 31 * m := by
    interval_cases m
    all_goals
      simp only [daysBefore]
      omega
  unfold monthStart yearStart
  rw [hm]
  omega

/-- The month in which a day lies, starting from a guess that is at most one
month away. -/
def monthOf (day : Int) : Int :=
  let guess := 4800 * (day + 719528) / 146097
  if day < monthStart guess then guess - 1
  else if monthStart (guess + 1) ≤ day then guess + 1
  else guess

theorem monthOf_spec (day : Int) :
    monthStart (monthOf day) ≤ day ∧ day < monthStart (monthOf day + 1) := by
  obtain ⟨guess, hguess⟩ : ∃ guess, 4800 * (day + 719528) / 146097 = guess :=
    ⟨_, rfl⟩
  have hbefore := monthStart_bounds (guess - 1)
  have hafter := monthStart_bounds (guess + 2)
  have hspan : guess - 1 + 1 = guess ∧ guess + 1 + 1 = guess + 2 := by omega
  unfold monthOf
  simp only [hguess]
  split
  · rw [hspan.1]
    omega
  · split
    · rw [hspan.2]
      omega
    · omega

/-- A day is in one month only. -/
theorem monthOf_eq_iff {day k : Int} :
    monthOf day = k ↔ monthStart k ≤ day ∧ day < monthStart (k + 1) := by
  constructor
  · rintro rfl
    exact monthOf_spec day
  · rintro ⟨hstart, hend⟩
    obtain ⟨hstart', hend'⟩ := monthOf_spec day
    have hle := strictMono_monthStart.lt_iff_lt.mp (Int.lt_of_le_of_lt hstart' hend)
    have hge := strictMono_monthStart.lt_iff_lt.mp (Int.lt_of_le_of_lt hstart hend')
    omega

theorem monthOf_mono {day day' : Int} (h : day ≤ day') : monthOf day ≤ monthOf day' := by
  obtain ⟨hstart, _⟩ := monthOf_spec day
  obtain ⟨_, hend⟩ := monthOf_spec day'
  have hlt := strictMono_monthStart.lt_iff_lt.mp
    (Int.lt_of_le_of_lt (Int.le_trans hstart h) hend)
  omega

end Months

section Dates

/-- The parts of the date of a day. -/
def year (day : Int) : Int :=
  monthOf day / 12

def month (day : Int) : Int :=
  monthOf day % 12 + 1

def dayOfMonth (day : Int) : Int :=
  day - monthStart (monthOf day) + 1

/-- Days from the last Sunday, and from the last Monday. -/
def numDaysFromSunday (day : Int) : Int :=
  (day + 4) % 7

def numDaysFromMonday (day : Int) : Int :=
  (day + 3) % 7

/-- The first and the last day that there is a date for. -/
def minDay : Int :=
  yearStart (-262143)

def maxDay : Int :=
  yearStart 262143 - 1

/-- The day of a date, if there is one. -/
def fromYmdOpt (year month dayOfMonth : Int) : Option Int :=
  let k := 12 * year + (month - 1)
  if -262143 ≤ year ∧ year ≤ 262142 ∧ 1 ≤ month ∧ month ≤ 12 ∧
      1 ≤ dayOfMonth ∧ dayOfMonth ≤ monthLength k then
    some (monthStart k + (dayOfMonth - 1))
  else none

variable {day : Int}

theorem dayOfMonth_bounds (day : Int) :
    1 ≤ dayOfMonth day ∧ dayOfMonth day ≤ monthLength (monthOf day) := by
  obtain ⟨hstart, hend⟩ := monthOf_spec day
  rw [monthStart_succ] at hend
  unfold dayOfMonth
  omega

theorem month_bounds (day : Int) : 1 ≤ month day ∧ month day ≤ 12 := by
  unfold month
  omega

/-- The month with a year and a number from 1 to 12. -/
theorem twelve_mul_year_add (day : Int) :
    12 * year day + (month day - 1) = monthOf day := by
  unfold year month
  omega

/-- A month has at most one day of each number. -/
theorem eq_monthStart_add (day : Int) :
    day = monthStart (monthOf day) + (dayOfMonth day - 1) := by
  unfold dayOfMonth
  omega

/-- The years of the calendar begin with a month. -/
theorem yearStart_eq (year : Int) : yearStart year = monthStart (12 * year) := by
  have hyear : 12 * year / 12 = year := by omega
  have hmonth : 12 * year % 12 = 0 := by omega
  unfold monthStart
  rw [hyear, hmonth]
  simp [daysBefore]

/-- The days of the calendar are those of its months. -/
theorem monthOf_bounds (hmin : minDay ≤ day) (hmax : day ≤ maxDay) :
    12 * -262143 ≤ monthOf day ∧ monthOf day < 12 * 262143 := by
  obtain ⟨hstart, hend⟩ := monthOf_spec day
  unfold minDay at hmin
  unfold maxDay at hmax
  rw [yearStart_eq] at hmin hmax
  have hlow := strictMono_monthStart.lt_iff_lt.mp (Int.lt_of_le_of_lt hmin hend)
  have hhigh := strictMono_monthStart.lt_iff_lt.mp
    (Int.lt_of_le_of_lt hstart (Int.lt_of_le_sub_one hmax))
  omega

theorem fromYmdOpt_of_month {year month k : Int} (hk : 12 * year + (month - 1) = k)
    (hmonth : 1 ≤ month ∧ month ≤ 12) (dayOfMonth : Int) :
    fromYmdOpt year month dayOfMonth =
      if (12 * -262143 ≤ k ∧ k < 12 * 262143) ∧
          1 ≤ dayOfMonth ∧ dayOfMonth ≤ monthLength k then
        some (monthStart k + (dayOfMonth - 1))
      else none := by
  unfold fromYmdOpt
  simp only [hk]
  refine if_congr ?_ rfl rfl
  omega

end Dates

section Instants

/-- A point in time is a number of nanoseconds since the beginning of 1970.
These are the day, the hour and the minute it lies in. -/
def dateNaive (t : Int) : Int :=
  t / 86400000000000

def hour (t : Int) : Int :=
  t / 3600000000000 % 24

def minute (t : Int) : Int :=
  t / 60000000000 % 60

/-- The beginning of a minute of a day. -/
def atTime (day hour minute : Int) : Int :=
  day * 86400000000000 + hour * 3600000000000 + minute * 60000000000

/-- A point in time with a date. -/
def InRange (t : Int) : Prop :=
  minDay ≤ dateNaive t ∧ dateNaive t ≤ maxDay

instance (t : Int) : Decidable (InRange t) :=
  inferInstanceAs (Decidable (_ ∧ _))

/-- A later point in time, if it has a date. -/
def addSeconds (t : Int) (secs : Nat) : Option Int :=
  if InRange (t + secs * 1000000000) then some (t + secs * 1000000000) else none

/-- A point in time without what is below a minute. -/
def minuteStart (t : Int) : Int :=
  t / 60000000000 * 60000000000

variable {t day hour' minute' : Int}

theorem atTime_dateNaive (t : Int) :
    atTime (dateNaive t) (hour t) (minute t) = minuteStart t := by
  unfold atTime dateNaive hour minute minuteStart
  omega

@[simp] theorem dateNaive_minuteStart (t : Int) :
    dateNaive (minuteStart t) = dateNaive t := by
  unfold dateNaive minuteStart
  omega

@[simp] theorem hour_minuteStart (t : Int) : hour (minuteStart t) = hour t := by
  unfold hour minuteStart
  omega

@[simp] theorem minute_minuteStart (t : Int) :
    minute (minuteStart t) = minute t := by
  unfold minute minuteStart
  omega

theorem dateNaive_atTime (hhour : 0 ≤ hour' ∧ hour' < 24)
    (hminute : 0 ≤ minute' ∧ minute' < 60) :
    dateNaive (atTime day hour' minute') = day := by
  unfold dateNaive atTime
  omega

end Instants

end Calendar
end Lib
