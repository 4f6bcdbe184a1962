import HyperBackup.Agent.Cron
import Mathlib.Tactic.IntervalCases

/-!
# The next run of a schedule

A schedule runs at fixed intervals, by a cron expression, or at a time of day
on every day, on a weekday or on a day of the month.  The last three are asked
for the first such time after now.

Every day and every week have the time that is looked for.  A month may lack
the day, and only this month and the next one are looked at, so there is no
next run if this month lacks it, or if it is over in this month and the next
one lacks it.

A result has two layers.  There is none where a time leaves the calendar, which
ends the program; and there may be no next run.
-/

namespace HyperBackup
namespace Agent

open Lib Lib.TextFields Lib.Calendar

inductive ScheduleMode
  | manual
  | interval
  | daily
  | weekly
  | monthly
  | cron
deriving DecidableEq

structure Schedule where
  mode : ScheduleMode
  cronExpression : Option String
  interval : Option Nat
  timeOfDay : Option String
  dayOfWeek : Option Nat
  dayOfMonth : Option Nat
  nextRunAt : Option Int

/-- A minute of a day. -/
structure NaiveTime where
  hour : Fin 24
  minute : Fin 60
deriving DecidableEq

namespace NaiveTime

def fromHmOpt (hour minute : Nat) : Option NaiveTime :=
  if h : hour < 24 ∧ minute < 60 then some ⟨⟨hour, h.1⟩, ⟨minute, h.2⟩⟩ else none

/-- The point in time at which it is this time of the day. -/
def on (time : NaiveTime) (day : Int) : Int :=
  atTime day time.hour.val time.minute.val

variable {time : NaiveTime} {day day' : Int}

@[simp] theorem dateNaive_on (time : NaiveTime) (day : Int) :
    dateNaive (time.on day) = day :=
  dateNaive_atTime ⟨Int.natCast_nonneg _, by omega⟩ ⟨Int.natCast_nonneg _, by omega⟩

theorem on_add (time : NaiveTime) (day days : Int) :
    time.on (day + days) = time.on day + days * 86400000000000 := by
  unfold on atTime
  omega

theorem on_le_on_iff : time.on day ≤ time.on day' ↔ day ≤ day' := by
  unfold on atTime
  omega

theorem inRange_on_iff : InRange (time.on day) ↔ minDay ≤ day ∧ day ≤ maxDay := by
  unfold InRange
  rw [dateNaive_on]

end NaiveTime

def parseTimeOfDay (s : String) : Option NaiveTime :=
  match s.toList.splitOn ':' with
  | [hourStr, minuteStr] => do
      let hour ← parseUnsigned (2 ^ 32) hourStr
      let minute ← parseUnsigned (2 ^ 32) minuteStr
      NaiveTime.fromHmOpt hour minute
  | _ => none

namespace Scheduler

section Runs

/-- The time of day of a schedule. -/
def timeOf (schedule : Schedule) : Option NaiveTime := do
  let timeStr ← schedule.timeOfDay
  parseTimeOfDay timeStr

def nextInterval (schedule : Schedule) (now : Int) : Option (Option Int) :=
  match schedule.interval with
  | none => some none
  | some intervalSecs => (addSeconds now intervalSecs).map some

def nextDaily (schedule : Schedule) (now : Int) : Option (Option Int) :=
  match timeOf schedule with
  | none => some none
  | some time =>
      let todayTarget := time.on (dateNaive now)
      if todayTarget > now then some (some todayTarget)
      else (addSeconds todayTarget 86400).map some

/-- Sunday is day 0 of the schedule and the last day of the week. -/
def weekdayFromMonday : Nat → Option Int
  | 0 => some 6
  | 1 => some 0
  | 2 => some 1
  | 3 => some 2
  | 4 => some 3
  | 5 => some 4
  | 6 => some 5
  | _ => none

def nextWeekly (schedule : Schedule) (now : Int) : Option (Option Int) :=
  match schedule.dayOfWeek, timeOf schedule with
  | some targetDow, some time =>
      match weekdayFromMonday targetDow with
      | none => some none
      | some weekday =>
          let today := dateNaive now
          let daysUntil := (weekday - numDaysFromMonday today + 7) % 7
          -- adding days to a date ends the program behind the last date
          if today + daysUntil > maxDay then none
          else
            let target := time.on (today + daysUntil)
            if target > now then some (some target)
            else (addSeconds target (7 * 86400)).map some
  | _, _ => some none

def nextMonthly (schedule : Schedule) (now : Int) : Option (Option Int) :=
  match schedule.dayOfMonth, timeOf schedule with
  | some targetDom, some time =>
      let today := dateNaive now
      let year := year today
      let month := month today
      match fromYmdOpt year month targetDom with
      | none => some none
      | some targetThisMonth =>
          let target := time.on targetThisMonth
          if target > now then some (some target)
          else
            let nextMonth := if month = 12 then 1 else month + 1
            let nextYear := if month = 12 then year + 1 else year
            some ((fromYmdOpt nextYear nextMonth targetDom).map time.on)
  | _, _ => some none

def nextCron (schedule : Schedule) (now : Int) : Option (Option Int) :=
  match schedule.cronExpression.bind CronExpr.parse with
  | none => some none
  | some cron => cron.nextAfter now

def computeNextRun (schedule : Schedule) (now : Int) : Option (Option Int) :=
  match schedule.mode with
  | .manual => some none
  | .interval => nextInterval schedule now
  | .daily => nextDaily schedule now
  | .weekly => nextWeekly schedule now
  | .monthly => nextMonthly schedule now
  | .cron => nextCron schedule now

def shouldRunNow (schedule : Schedule) (now : Int) : Bool :=
  match schedule.nextRunAt with
  | some next => now ≥ next
  | none => false

def updateAfterRun (schedule : Schedule) (now : Int) : Option Schedule :=
  (computeNextRun schedule now).map fun next => { schedule with nextRunAt := next }

/-- After an update the schedule is due from its next run on, and never if it
has none. -/
theorem shouldRunNow_updateAfterRun {schedule : Schedule} {now : Int}
    {next : Option Int} (h : computeNextRun schedule now = some next) :
    ∃ updated, updateAfterRun schedule now = some updated ∧
      ∀ later, shouldRunNow updated later = true ↔ ∃ t, next = some t ∧ t ≤ later := by
  refine ⟨{ schedule with nextRunAt := next }, ?_, ?_⟩
  · unfold updateAfterRun
    rw [h]
    rfl
  · intro later
    unfold shouldRunNow
    cases next with
    | none =>
        simp
    | some t =>
        simp

end Runs

section Calendar

/-- The days of a schedule with a time of day. -/
inductive DayRule
  | every
  | weekday (daysFromSunday : Nat)
  | monthDay (dayOfMonth : Nat)

def DayRule.Describes (rule : DayRule) (day : Int) : Prop :=
  match rule with
  | .every => True
  | .weekday daysFromSunday => numDaysFromSunday day = daysFromSunday
  | .monthDay number => dayOfMonth day = number

/-- The schedule is set up to run on these days. -/
inductive HasRule : Schedule → DayRule → Prop
  | daily {schedule : Schedule} (hmode : schedule.mode = .daily) :
      HasRule schedule .every
  | weekly {schedule : Schedule} {d : Nat} (hmode : schedule.mode = .weekly)
      (hday : schedule.dayOfWeek = some d) (hd : d ≤ 6) :
      HasRule schedule (.weekday d)
  | monthly {schedule : Schedule} {d : Nat} (hmode : schedule.mode = .monthly)
      (hday : schedule.dayOfMonth = some d) (hd : 1 ≤ d ∧ d ≤ 31) :
      HasRule schedule (.monthDay d)

/-- The first described day on which the time is later than now. -/
structure IsFirstDay (rule : DayRule) (time : NaiveTime) (now day : Int) : Prop where
  describes : rule.Describes day
  later : now < time.on day
  first : ∀ day', rule.Describes day' → now < time.on day' → day ≤ day'

/-- The next run is the first instant after now at the time of the schedule, on
one of its days. -/
def HasNextRun (schedule : Schedule) (rule : DayRule) (time : NaiveTime)
    (now : Int) : Prop :=
  ∃ t, computeNextRun schedule now = some (some t) ∧
    ∃ day, t = time.on day ∧ rule.Describes day ∧ now < t ∧
      ∀ day', rule.Describes day' → now < time.on day' → t ≤ time.on day'

/-- Where the next run is found: a later time on one of the days is still in
the calendar, and for a day of the month this month has it, and the time on it
is later than now or the next month has it as well. -/
def Foreseen (rule : DayRule) (time : NaiveTime) (now : Int) : Prop :=
  match rule with
  | .every => ∃ day ≤ maxDay, now < time.on day
  | .weekday d => ∃ day ≤ maxDay, numDaysFromSunday day = d ∧ now < time.on day
  | .monthDay d =>
      let k := monthOf (dateNaive now)
      d ≤ monthLength k ∧ (now < time.on (monthStart k + (d - 1)) ∨
        (d ≤ monthLength (k + 1) ∧ monthStart (k + 1) ≤ maxDay))

variable {schedule : Schedule} {rule : DayRule} {time : NaiveTime} {now day : Int}

/-- A time that is later than now is not before today. -/
theorem dateNaive_le (h : now < time.on day) : dateNaive now ≤ day := by
  have hday := NaiveTime.dateNaive_on time day
  unfold dateNaive at hday ⊢
  omega

theorem now_lt_on (h : dateNaive now < day) : now < time.on day := by
  have hday := NaiveTime.dateNaive_on time day
  unfold dateNaive at h hday
  omega

theorem hasNextRun_of_first (hfirst : IsFirstDay rule time now day)
    (hrun : computeNextRun schedule now = some (some (time.on day))) :
    HasNextRun schedule rule time now := by
  refine ⟨time.on day, hrun, day, rfl, hfirst.describes, hfirst.later, ?_⟩
  intro day' hdescribes hlater
  exact NaiveTime.on_le_on_iff.mpr (hfirst.first day' hdescribes hlater)

/-- If the run is on the first day, as long as the calendar has it, there is a
next run exactly as long as there is such a day. -/
theorem hasNextRun_iff_of_first (hfirst : IsFirstDay rule time now day)
    (hrun : computeNextRun schedule now =
      if day ≤ maxDay then some (some (time.on day)) else none) :
    HasNextRun schedule rule time now ↔
      ∃ day ≤ maxDay, rule.Describes day ∧ now < time.on day := by
  constructor
  · rintro ⟨t, ht, _⟩
    rw [hrun, Option.ite_none_right_eq_some] at ht
    exact ⟨day, ht.1, hfirst.describes, hfirst.later⟩
  · rintro ⟨day', hmax, hdescribes, hlater⟩
    have hle := hfirst.first day' hdescribes hlater
    rw [if_pos (Int.le_trans hle hmax)] at hrun
    exact hasNextRun_of_first hfirst hrun

/-- Some days later it is the same time, unless the calendar has ended. -/
theorem map_addSeconds_on (hday : minDay ≤ day) {days : Nat} {n : Int} (hn : days = n) :
    (addSeconds (time.on day) (days * 86400)).map some =
      if day + n ≤ maxDay then some (some (time.on (day + n))) else none := by
  have hsum : time.on day + (days * 86400 : Nat) * 1000000000 = time.on (day + n) := by
    rw [NaiveTime.on_add, ← hn]
    push_cast
    omega
  have hrange : InRange (time.on (day + n)) ↔ day + n ≤ maxDay := by
    rw [NaiveTime.inRange_on_iff]
    omega
  unfold addSeconds
  rw [hsum]
  by_cases hend : day + n ≤ maxDay
  · rw [if_pos hend, if_pos (hrange.mpr hend)]
    rfl
  · rw [if_neg hend, if_neg fun h => hend (hrange.mp h)]
    rfl

/-- The first day of a daily schedule. -/
theorem computeNextRun_daily (htime : timeOf schedule = some time)
    (hmode : schedule.mode = .daily) (hnow : InRange now) :
    ∃ day, IsFirstDay .every time now day ∧
      computeNextRun schedule now =
        if day ≤ maxDay then some (some (time.on day)) else none := by
  obtain ⟨hmin, hmax⟩ := hnow
  have hrun : computeNextRun schedule now = nextDaily schedule now := by
    unfold computeNextRun
    rw [hmode]
  rw [hrun, nextDaily, htime]
  simp only
  by_cases hlater : now < time.on (dateNaive now)
  · refine ⟨dateNaive now, ⟨trivial, hlater, ?_⟩, ?_⟩
    · intro day' _ hday'
      exact dateNaive_le hday'
    · rw [if_pos hlater, if_pos hmax]
  · refine ⟨dateNaive now + 1, ⟨trivial, now_lt_on (by omega), ?_⟩, ?_⟩
    · intro day' _ hday'
      have hle := dateNaive_le hday'
      have hne : day' ≠ dateNaive now := by
        rintro rfl
        exact hlater hday'
      omega
    · rw [if_neg hlater]
      exact @map_addSeconds_on time (dateNaive now) hmin 1 1 rfl

/-- The number of a weekday, counted from Sunday and from Monday. -/
theorem weekdayFromMonday_of_le {d : Nat} (hd : d ≤ 6) :
    weekdayFromMonday d = some (((d : Int) + 6) % 7) := by
  interval_cases d
  all_goals rfl

/-- The first day of a weekly schedule. -/
theorem computeNextRun_weekly {d : Nat} (htime : timeOf schedule = some time)
    (hmode : schedule.mode = .weekly) (hday : schedule.dayOfWeek = some d)
    (hd : d ≤ 6) (hnow : InRange now) :
    ∃ day, IsFirstDay (.weekday d) time now day ∧
      computeNextRun schedule now =
        if day ≤ maxDay then some (some (time.on day)) else none := by
  obtain ⟨hmin, hmax⟩ := hnow
  have hrun : computeNextRun schedule now = nextWeekly schedule now := by
    unfold computeNextRun
    rw [hmode]
  obtain ⟨daysUntil, huntil⟩ : ∃ days, (((d : Int) + 6) % 7 -
      numDaysFromMonday (dateNaive now) + 7) % 7 = days := ⟨_, rfl⟩
  have hbounds : 0 ≤ daysUntil ∧ daysUntil < 7 := by omega
  -- the days of the week come back every seven days
  have hweek : ∀ day', numDaysFromSunday day' = d ↔
      (day' - (dateNaive now + daysUntil)) % 7 = 0 := by
    intro day'
    unfold numDaysFromMonday at huntil
    unfold numDaysFromSunday
    omega
  rw [hrun, nextWeekly, hday, htime]
  simp only [weekdayFromMonday_of_le hd, huntil]
  by_cases hlater : now < time.on (dateNaive now + daysUntil)
  · refine ⟨dateNaive now + daysUntil, ⟨(hweek _).mpr (by omega), hlater, ?_⟩, ?_⟩
    · intro day' hdescribes hday'
      have hle := dateNaive_le hday'
      have hrem := (hweek day').mp hdescribes
      omega
    · rw [if_pos hlater]
      by_cases hend : dateNaive now + daysUntil > maxDay
      · rw [if_pos hend, if_neg (Int.not_le.mpr hend)]
      · rw [if_neg hend, if_pos (Int.not_lt.mp hend)]
  · have hzero : daysUntil = 0 := by
      by_contra hne
      exact hlater (now_lt_on (by omega))
    refine ⟨dateNaive now + daysUntil + 7,
      ⟨(hweek _).mpr (by omega), now_lt_on (by omega), ?_⟩, ?_⟩
    · intro day' hdescribes hday'
      have hle := dateNaive_le hday'
      have hrem := (hweek day').mp hdescribes
      have hne : day' ≠ dateNaive now + daysUntil := by
        rintro rfl
        exact hlater hday'
      omega
    · rw [if_neg (by omega), if_neg hlater]
      exact @map_addSeconds_on time (dateNaive now + daysUntil) (by omega) 7 7 rfl

/-- The day of a month, taken from its parts. -/
theorem eq_of_dayOfMonth {d : Nat} (h : dayOfMonth day = d) :
    day = monthStart (monthOf day) + (d - 1) ∧ d ≤ monthLength (monthOf day) := by
  have hday := eq_monthStart_add day
  have hbounds := dayOfMonth_bounds day
  rw [h] at hday hbounds
  exact ⟨hday, hbounds.2⟩

/-- A month with the day has it where it is counted from its start. -/
theorem dayOfMonth_monthStart_add {k : Int} {d : Nat} (hd : 1 ≤ d)
    (hk : d ≤ monthLength k) :
    monthOf (monthStart k + (d - 1)) = k ∧ dayOfMonth (monthStart k + (d - 1)) = d := by
  have hmonth : monthOf (monthStart k + (d - 1)) = k := by
    rw [monthOf_eq_iff, monthStart_succ]
    omega
  refine ⟨hmonth, ?_⟩
  unfold dayOfMonth
  rw [hmonth]
  omega

/-- This month has the day, and it is not over. -/
theorem isFirstDay_thisMonth {d : Nat} (hd : 1 ≤ d)
    (hthis : d ≤ monthLength (monthOf (dateNaive now)))
    (hlater : now < time.on (monthStart (monthOf (dateNaive now)) + (d - 1))) :
    IsFirstDay (.monthDay d) time now
      (monthStart (monthOf (dateNaive now)) + (d - 1)) where
  describes := (dayOfMonth_monthStart_add hd hthis).2
  later := hlater
  first := by
    intro day' hdescribes hday'
    have hmonth := monthOf_mono (dateNaive_le hday')
    have hstart := strictMono_monthStart.monotone hmonth
    have hday := (eq_of_dayOfMonth hdescribes).1
    omega

/-- This month has the day, but it is over, and the next month has it too. -/
theorem isFirstDay_nextMonth {d : Nat} (hd : 1 ≤ d)
    (hover : ¬ now < time.on (monthStart (monthOf (dateNaive now)) + (d - 1)))
    (hnext : d ≤ monthLength (monthOf (dateNaive now) + 1)) :
    IsFirstDay (.monthDay d) time now
      (monthStart (monthOf (dateNaive now) + 1) + (d - 1)) where
  describes := (dayOfMonth_monthStart_add hd hnext).2
  later := by
    have hend := (monthOf_spec (dateNaive now)).2
    exact now_lt_on (by omega)
  first := by
    intro day' hdescribes hday'
    have hmonth := monthOf_mono (dateNaive_le hday')
    have hday := (eq_of_dayOfMonth hdescribes).1
    have hne : monthOf day' ≠ monthOf (dateNaive now) := by
      intro heq
      rw [heq] at hday
      rw [hday] at hday'
      exact hover hday'
    have hstart := @StrictMono.monotone _ _ _ _ _ strictMono_monthStart
      (monthOf (dateNaive now) + 1) (monthOf day') (by omega)
    omega

/-- The day of this month, if it has it. -/
theorem fromYmdOpt_thisMonth {d : Nat} (hmin : minDay ≤ day) (hmax : day ≤ maxDay)
    (hd : 1 ≤ d) :
    fromYmdOpt (year day) (month day) d =
      if d ≤ monthLength (monthOf day) then some (monthStart (monthOf day) + (d - 1))
      else none := by
  have hbounds := monthOf_bounds hmin hmax
  have hmonth := month_bounds day
  rw [fromYmdOpt_of_month (twelve_mul_year_add day) hmonth]
  exact if_congr (by omega) rfl rfl

/-- The day of the next month, if it has it and the calendar has not ended. -/
theorem fromYmdOpt_nextMonth {d : Nat} (hmin : minDay ≤ day) (hmax : day ≤ maxDay)
    (hd : 1 ≤ d) :
    fromYmdOpt (if month day = 12 then year day + 1 else year day)
        (if month day = 12 then 1 else month day + 1) d =
      if d ≤ monthLength (monthOf day + 1) ∧ monthStart (monthOf day + 1) ≤ maxDay then
        some (monthStart (monthOf day + 1) + (d - 1))
      else none := by
  have hbounds := monthOf_bounds hmin hmax
  have hmonth := month_bounds day
  have hparts := twelve_mul_year_add day
  have hend : monthOf day + 1 < 12 * 262143 ↔ monthStart (monthOf day + 1) ≤ maxDay := by
    rw [← strictMono_monthStart.lt_iff_lt, maxDay, yearStart_eq]
    omega
  rw [@fromYmdOpt_of_month _ _ (monthOf day + 1) ?_ ?_]
  · exact if_congr (by omega) rfl rfl
  · split
    · omega
    · omega
  · split
    · omega
    · omega

/-- What a monthly schedule computes, in terms of the months. -/
theorem computeNextRun_monthly {d : Nat} (htime : timeOf schedule = some time)
    (hmode : schedule.mode = .monthly) (hday : schedule.dayOfMonth = some d)
    (hd : 1 ≤ d) (hnow : InRange now) :
    computeNextRun schedule now = some (
      if d ≤ monthLength (monthOf (dateNaive now)) then
        if now < time.on (monthStart (monthOf (dateNaive now)) + (d - 1)) then
          some (time.on (monthStart (monthOf (dateNaive now)) + (d - 1)))
        else if d ≤ monthLength (monthOf (dateNaive now) + 1) ∧
            monthStart (monthOf (dateNaive now) + 1) ≤ maxDay then
          some (time.on (monthStart (monthOf (dateNaive now) + 1) + (d - 1)))
        else none
      else none) := by
  have hrun : computeNextRun schedule now = nextMonthly schedule now := by
    unfold computeNextRun
    rw [hmode]
  have hthis := fromYmdOpt_thisMonth hnow.1 hnow.2 hd
  have hnext := fromYmdOpt_nextMonth hnow.1 hnow.2 hd
  rw [hrun, nextMonthly, hday, htime]
  simp only [hthis, hnext]
  by_cases hlength : d ≤ monthLength (monthOf (dateNaive now))
  · simp only [if_pos hlength]
    split
    · rfl
    · split
      · rfl
      · rfl
  · simp only [if_neg hlength]

/-- A schedule with a time of day has a next run, the first one after now,
exactly where it is foreseen. -/
theorem hasNextRun_iff_foreseen (hrule : HasRule schedule rule)
    (htime : timeOf schedule = some time) (hnow : InRange now) :
    HasNextRun schedule rule time now ↔ Foreseen rule time now := by
  cases hrule with
  | daily hmode =>
      obtain ⟨day, hfirst, hrun⟩ := computeNextRun_daily htime hmode hnow
      rw [hasNextRun_iff_of_first hfirst hrun]
      simp only [Foreseen, DayRule.Describes, true_and]
  | weekly hmode hday hd =>
      obtain ⟨day, hfirst, hrun⟩ := computeNextRun_weekly htime hmode hday hd hnow
      exact hasNextRun_iff_of_first hfirst hrun
  | @monthly d hmode hday hd =>
      have hrun := computeNextRun_monthly htime hmode hday hd.1 hnow
      have hnone : computeNextRun schedule now = some none →
          ¬ HasNextRun schedule (.monthDay d) time now := by
        rintro hnone ⟨t, ht, _⟩
        rw [hnone] at ht
        cases ht
      unfold Foreseen
      simp only
      by_cases hthis : d ≤ monthLength (monthOf (dateNaive now))
      · rw [if_pos hthis] at hrun
        rw [and_iff_right hthis]
        by_cases hlater : now < time.on (monthStart (monthOf (dateNaive now)) + (d - 1))
        · rw [if_pos hlater] at hrun
          exact iff_of_true
            (hasNextRun_of_first (isFirstDay_thisMonth hd.1 hthis hlater) hrun)
            (Or.inl hlater)
        · rw [if_neg hlater] at hrun
          rw [or_iff_right hlater]
          by_cases hnext : d ≤ monthLength (monthOf (dateNaive now) + 1) ∧
              monthStart (monthOf (dateNaive now) + 1) ≤ maxDay
          · rw [if_pos hnext] at hrun
            exact iff_of_true
              (hasNextRun_of_first (isFirstDay_nextMonth hd.1 hlater hnext.1) hrun) hnext
          · rw [if_neg hnext] at hrun
            exact iff_of_false (hnone hrun) hnext
      · rw [if_neg hthis] at hrun
        exact iff_of_false (hnone hrun) fun h => hthis h.1

/-- The last day of the long months, at two o'clock. -/
def endOfMonth : Schedule where
  mode := .monthly
  cronExpression := none
  interval := none
  timeOfDay := some "02:00"
  dayOfWeek := none
  dayOfMonth := some 31
  nextRunAt := none

theorem hasRule_endOfMonth : HasRule endOfMonth (.monthDay 31) :=
  HasRule.monthly rfl rfl (by decide)

theorem timeOf_endOfMonth : timeOf endOfMonth = some ⟨2, 0⟩ := by
  decide

/-- On the tenth of January the run on the 31st is found. -/
theorem hasNextRun_january :
    HasNextRun endOfMonth (.monthDay 31) ⟨2, 0⟩ (1704888000 * 1000000000) := by
  refine (hasNextRun_iff_foreseen hasRule_endOfMonth timeOf_endOfMonth
    (by decide)).mpr ?_
  exact ⟨by decide, Or.inl (by decide)⟩

/-- On the tenth of February there is no next run. -/
theorem not_hasNextRun_february :
    HasRule endOfMonth (.monthDay 31) ∧ timeOf endOfMonth = some ⟨2, 0⟩ ∧
      InRange (1707566400 * 1000000000) ∧
      ¬ HasNextRun endOfMonth (.monthDay 31) ⟨2, 0⟩ (1707566400 * 1000000000) := by
  refine ⟨hasRule_endOfMonth, timeOf_endOfMonth, by decide, ?_⟩
  have hrun : computeNextRun endOfMonth (1707566400 * 1000000000) = some none := by
    decide
  rintro ⟨t, ht, _⟩
  rw [hrun] at ht
  cases ht

end Calendar

end Scheduler

end Agent
end HyperBackup
