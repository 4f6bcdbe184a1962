import HyperBackup.Lib.Calendar
import HyperBackup.Lib.TextFields
import Mathlib.Data.List.Sort
import Mathlib.Tactic.Ring

/-!
# Cron expressions of the scheduler

An expression has five fields, and each stands for a list of numbers within the
bounds of the field.  The next run is looked for minute by minute, for at most
366 days.

What a field stands for is said by its text: a star for all numbers, a star
with a step for every so many from the lower bound on, and otherwise numbers
and ranges with commas between them.
-/

namespace HyperBackup
namespace Agent

open Lib Lib.TextFields Lib.Calendar

/-- A number of eight bits. -/
def parseU8 : List Char → Option Nat :=
  parseUnsigned 256

structure CronExpr where
  minutes : List Nat
  hours : List Nat
  daysOfMonth : List Nat
  months : List Nat
  daysOfWeek : List Nat
deriving DecidableEq

namespace CronExpr

section Fields

/-- The numbers from a lower to an upper bound. -/
def rangeInclusive (low high : Nat) : List Nat :=
  List.range' low (high + 1 - low)

/-- Drop repetitions that stand next to each other. -/
def dedup : List Nat → List Nat
  | [] => []
  | [v] => [v]
  | v :: w :: rest => if v = w then dedup (w :: rest) else v :: dedup (w :: rest)

/-- The numbers of a part between two commas, as far as they are within the
bounds. -/
def parsePart (min max : Nat) (part : List Char) : Option (List Nat) :=
  match splitOnce '-' part with
  | some (startStr, endStr) => do
      let start ← parseU8 startStr
      let stop ← parseU8 endStr
      return (rangeInclusive start stop).filter fun v => min ≤ v ∧ v ≤ max
  | none => do
      let v ← parseU8 part
      return if min ≤ v ∧ v ≤ max then [v] else []

def parseList (min max : Nat) (field : List Char) : Option (List Nat) := do
  let parts ← (field.splitOn ',').mapM (parsePart min max)
  let result := parts.flatten
  if result.isEmpty then none else some (dedup (result.mergeSort (· ≤ ·)))

def parseField (field : List Char) (min max : Nat) : Option (List Nat) :=
  match field with
  | ['*'] => some (rangeInclusive min max)
  | '*' :: '/' :: stepStr => do
      let step ← parseU8 stepStr
      if step = 0 then none
      else
        some ((rangeInclusive min max).filter fun v => (v - min) % step = 0)
  | _ => parseList min max field

def parse (expr : String) : Option CronExpr :=
  match splitWhitespace expr.toList with
  | [minutes, hours, daysOfMonth, months, daysOfWeek] => do
      return {
        minutes := ← parseField minutes 0 59
        hours := ← parseField hours 0 23
        daysOfMonth := ← parseField daysOfMonth 1 31
        months := ← parseField months 1 12
        daysOfWeek := ← parseField daysOfWeek 0 6 }
  | _ => none

end Fields

section Denotations

/-- What a part between two commas stands for. -/
def PartDenotes (part : List Char) (v : Nat) : Prop :=
  parseU8 part = some v ∨
    ∃ startStr endStr start stop, part = startStr ++ '-' :: endStr ∧
      '-' ∉ startStr ∧ parseU8 startStr = some start ∧ parseU8 endStr = some stop ∧
      start ≤ v ∧ v ≤ stop

/-- What a field stands for. -/
def Denotes (field : List Char) (min v : Nat) : Prop :=
  match field with
  | ['*'] => True
  | '*' :: '/' :: stepStr => ∃ step i, parseU8 stepStr = some step ∧ v = min + i * step
  | _ => ∃ part ∈ field.splitOn ',', PartDenotes part v

/-- The numbers of a field within its bounds, in increasing order. -/
structure IsField (field : List Char) (min max : Nat) (values : List Nat) : Prop where
  increasing : values.Pairwise (· < ·)
  denoted : ∀ v, v ∈ values ↔ min ≤ v ∧ v ≤ max ∧ Denotes field min v

variable {min max low high v : Nat} {part field : List Char} {values : List Nat}

theorem mem_rangeInclusive : v ∈ rangeInclusive low high ↔ low ≤ v ∧ v ≤ high := by
  unfold rangeInclusive
  rw [List.mem_range'_1]
  omega

theorem pairwise_rangeInclusive (low high : Nat) :
    (rangeInclusive low high).Pairwise (· < ·) :=
  List.pairwise_lt_range'

theorem mem_dedup (values : List Nat) : v ∈ dedup values ↔ v ∈ values := by
  fun_induction dedup values with
  | case1 => rfl
  | case2 w => rfl
  | case3 w rest ih =>
      rw [ih]
      simp
  | case4 u w rest hne ih =>
      rw [List.mem_cons, ih, List.mem_cons (a := v) (b := u)]

/-- A sorted list without its repetitions is strictly increasing. -/
theorem pairwise_dedup (h : values.Pairwise (· ≤ ·)) :
    (dedup values).Pairwise (· < ·) := by
  fun_induction dedup values with
  | case1 => exact List.Pairwise.nil
  | case2 w => exact List.pairwise_singleton _ _
  | case3 w rest ih => exact ih (List.Pairwise.of_cons h)
  | case4 u w rest hne ih =>
      obtain ⟨hu, hrest⟩ := List.pairwise_cons.mp h
      obtain ⟨hw, _⟩ := List.pairwise_cons.mp hrest
      refine List.pairwise_cons.mpr ⟨?_, ih hrest⟩
      intro x hx
      have huw := hu w List.mem_cons_self
      rw [mem_dedup] at hx
      rcases List.mem_cons.mp hx with rfl | hx
      · omega
      · have hwx := hw x hx
        omega

theorem mem_parsePart (h : parsePart min max part = some values) :
    v ∈ values ↔ min ≤ v ∧ v ≤ max ∧ PartDenotes part v := by
  unfold parsePart at h
  unfold PartDenotes
  cases hsplit : splitOnce '-' part with
  | some strs =>
      obtain ⟨startStr, endStr⟩ := strs
      obtain ⟨hpart, hdash⟩ := splitOnce_eq_some_iff.mp hsplit
      have hnumber : parseU8 part = none :=
        @parseUnsigned_eq_none part 256 '-'
          (hpart ▸ List.mem_append_right startStr List.mem_cons_self)
          (by decide) (by decide)
      simp only [hsplit, Option.bind_eq_bind, Option.bind_eq_some_iff] at h
      obtain ⟨start, hstart, stop, hstop, hvalues⟩ := h
      obtain rfl := Option.some.inj hvalues
      rw [List.mem_filter, mem_rangeInclusive, decide_eq_true_iff]
      constructor
      · rintro ⟨⟨hlow, hhigh⟩, hmin, hmax⟩
        exact ⟨hmin, hmax, Or.inr
          ⟨startStr, endStr, start, stop, hpart, hdash, hstart, hstop, hlow, hhigh⟩⟩
      · rintro ⟨hmin, hmax, hv | ⟨startStr', endStr', start', stop', hpart', hdash',
          hstart', hstop', hlow, hhigh⟩⟩
        · rw [hnumber] at hv
          cases hv
        · have hsame := hsplit.symm.trans (splitOnce_eq_some_iff.mpr ⟨hpart', hdash'⟩)
          obtain ⟨rfl, rfl⟩ := Prod.mk.inj (Option.some.inj hsame)
          obtain rfl := Option.some.inj (hstart.symm.trans hstart')
          obtain rfl := Option.some.inj (hstop.symm.trans hstop')
          exact ⟨⟨hlow, hhigh⟩, hmin, hmax⟩
  | none =>
      have hdash : '-' ∉ part := splitOnce_eq_none_iff.mp hsplit
      have hrange : ¬ ∃ startStr endStr start stop, part = startStr ++ '-' :: endStr ∧
          '-' ∉ startStr ∧ parseU8 startStr = some start ∧
          parseU8 endStr = some stop ∧ start ≤ v ∧ v ≤ stop := by
        rintro ⟨startStr, endStr, _, _, rfl, _⟩
        exact hdash (List.mem_append_right startStr List.mem_cons_self)
      simp only [hsplit, Option.bind_eq_bind, Option.bind_eq_some_iff] at h
      obtain ⟨number, hnumber, hvalues⟩ := h
      obtain rfl := Option.some.inj hvalues
      rw [or_iff_left hrange, hnumber, Option.some.injEq]
      split
      · rw [List.mem_singleton]
        omega
      · constructor
        · intro h
          cases h
        · omega

/-- What is collected from the parts of a list. -/
theorem mem_flatten_of_mapM {parts : List (List Char)} {lists : List (List Nat)}
    (h : parts.mapM (parsePart min max) = some lists) :
    v ∈ lists.flatten ↔
      min ≤ v ∧ v ≤ max ∧ ∃ part ∈ parts, PartDenotes part v := by
  induction parts generalizing lists with
  | nil =>
      obtain rfl := Option.some.inj h
      simp
  | cons part parts ih =>
      rw [List.mapM_cons] at h
      simp only [Option.bind_eq_bind, Option.bind_eq_some_iff] at h
      obtain ⟨first, hfirst, rest, hrest, hlists⟩ := h
      obtain rfl := Option.some.inj hlists
      rw [List.flatten_cons, List.mem_append, mem_parsePart hfirst, ih hrest]
      simp only [List.exists_mem_cons_iff]
      tauto

theorem isField_parseList (h : parseList min max field = some values) :
    values.Pairwise (· < ·) ∧ ∀ v, v ∈ values ↔
      min ≤ v ∧ v ≤ max ∧ ∃ part ∈ field.splitOn ',', PartDenotes part v := by
  unfold parseList at h
  simp only [Option.bind_eq_bind, Option.bind_eq_some_iff] at h
  obtain ⟨lists, hlists, h⟩ := h
  split at h
  · cases h
  · obtain rfl := Option.some.inj h
    refine ⟨pairwise_dedup ?_, ?_⟩
    · exact List.pairwise_mergeSort' (· ≤ ·) lists.flatten
    · intro v
      rw [mem_dedup, List.mem_mergeSort, mem_flatten_of_mapM hlists]

/-- The list of a field is what its text stands for. -/
theorem isField_parseField (h : parseField field min max = some values) :
    IsField field min max values := by
  unfold parseField at h
  split at h
  · obtain rfl := Option.some.inj h
    refine ⟨pairwise_rangeInclusive min max, fun v => ?_⟩
    rw [mem_rangeInclusive]
    exact ⟨fun ⟨hmin, hmax⟩ => ⟨hmin, hmax, trivial⟩,
      fun ⟨hmin, hmax, _⟩ => ⟨hmin, hmax⟩⟩
  · rename_i stepStr
    simp only [Option.bind_eq_bind, Option.bind_eq_some_iff] at h
    obtain ⟨step, hstep, h⟩ := h
    split at h
    · cases h
    · rename_i hzero
      obtain rfl := Option.some.inj h
      refine ⟨(pairwise_rangeInclusive min max).filter _, fun v => ?_⟩
      rw [List.mem_filter, mem_rangeInclusive, decide_eq_true_iff]
      constructor
      · rintro ⟨⟨hmin, hmax⟩, hrem⟩
        refine ⟨hmin, hmax, step, (v - min) / step, hstep, ?_⟩
        have hdiv := Nat.div_mul_cancel (Nat.dvd_of_mod_eq_zero hrem)
        omega
      · rintro ⟨hmin, hmax, step', i, hstep', rfl⟩
        obtain rfl := Option.some.inj (hstep.symm.trans hstep')
        refine ⟨⟨hmin, hmax⟩, ?_⟩
        rw [Nat.add_sub_cancel_left, Nat.mul_mod_left]
  · rename_i hstar hstep
    obtain ⟨hincreasing, hmem⟩ := isField_parseList h
    refine ⟨hincreasing, fun v => ?_⟩
    unfold Denotes
    split
    · exact absurd rfl hstar
    · exact absurd rfl (hstep _)
    · exact hmem v

end Denotations

section Search

/-- All five fields have the minute. -/
def Matches (cron : CronExpr) (t : Int) : Prop :=
  (minute t).toNat ∈ cron.minutes ∧ (hour t).toNat ∈ cron.hours ∧
    (dayOfMonth (dateNaive t)).toNat ∈ cron.daysOfMonth ∧
    (month (dateNaive t)).toNat ∈ cron.months ∧
    (numDaysFromSunday (dateNaive t)).toNat ∈ cron.daysOfWeek

instance (cron : CronExpr) (t : Int) : Decidable (cron.Matches t) :=
  inferInstanceAs (Decidable (_ ∧ _))

/-- The minute after which the search goes on. -/
def nextFrom (cron : CronExpr) (limit candidate : Int) : Option Int :=
  if _h : candidate < limit then
    if cron.Matches candidate then
      some (atTime (dateNaive candidate) (hour candidate) (minute candidate))
    else nextFrom cron limit (candidate + 60 * 1000000000)
  else none
termination_by (limit - candidate).toNat
decreasing_by omega

/-- The next run, unless the calendar ends less than 366 days later. -/
def nextAfter (cron : CronExpr) (after : Int) : Option (Option Int) := do
  let candidate ← addSeconds after 60
  let limit ← addSeconds after (366 * 86400)
  return nextFrom cron limit candidate

variable {cron : CronExpr} {limit candidate r : Int}

/-- Whether a point in time matches only depends on its minute. -/
theorem matches_minuteStart (cron : CronExpr) (t : Int) :
    cron.Matches (minuteStart t) ↔ cron.Matches t := by
  unfold Matches
  rw [minute_minuteStart, hour_minuteStart, dateNaive_minuteStart]

/-- A minute after a candidate is the next candidate. -/
theorem add_succ_mul (candidate : Int) (k : Nat) :
    candidate + 60 * 1000000000 + k * (60 * 1000000000) =
      candidate + (k + 1 : Nat) * (60 * 1000000000) := by
  push_cast
  ring

/-- The search finds the first candidate that matches. -/
theorem nextFrom_eq_some (h : nextFrom cron limit candidate = some r) :
    ∃ k : Nat, r = minuteStart (candidate + k * (60 * 1000000000)) ∧
      cron.Matches (candidate + k * (60 * 1000000000)) ∧
      ∀ j < k, ¬ cron.Matches (candidate + j * (60 * 1000000000)) := by
  fun_induction nextFrom cron limit candidate with
  | case1 candidate hlt hmatch =>
      obtain rfl := Option.some.inj h
      refine ⟨0, ?_, ?_, ?_⟩
      · rw [atTime_dateNaive, Nat.cast_zero, Int.zero_mul, Int.add_zero]
      · rw [Nat.cast_zero, Int.zero_mul, Int.add_zero]
        exact hmatch
      · intro j hj
        cases hj
  | case2 candidate hlt hno ih =>
      obtain ⟨k, hr, hmatch, hfirst⟩ := ih h
      rw [add_succ_mul] at hr hmatch
      refine ⟨k + 1, hr, hmatch, ?_⟩
      intro j hj
      cases j with
      | zero =>
          rw [Nat.cast_zero, Int.zero_mul, Int.add_zero]
          exact hno
      | succ j =>
          rw [← add_succ_mul]
          exact hfirst j (Nat.lt_of_succ_lt_succ hj)
  | case3 candidate hge =>
      cases h

/-- If nothing is found, no candidate before the limit matches. -/
theorem nextFrom_eq_none (h : nextFrom cron limit candidate = none) :
    ∀ k : Nat, candidate + k * (60 * 1000000000) < limit →
      ¬ cron.Matches (candidate + k * (60 * 1000000000)) := by
  fun_induction nextFrom cron limit candidate with
  | case1 candidate hlt hmatch =>
      cases h
  | case2 candidate hlt hno ih =>
      intro k hk
      cases k with
      | zero =>
          rw [Nat.cast_zero, Int.zero_mul, Int.add_zero]
          exact hno
      | succ k =>
          rw [← add_succ_mul] at hk ⊢
          exact ih h k hk
  | case3 candidate hge =>
      intro k hk
      omega

/-- The five fields are those of the text. -/
theorem fields_of_parse {expr : String} (h : parse expr = some cron) :
    ∃ minutes hours daysOfMonth months daysOfWeek,
      splitWhitespace expr.toList = [minutes, hours, daysOfMonth, months, daysOfWeek] ∧
      IsField minutes 0 59 cron.minutes ∧ IsField hours 0 23 cron.hours ∧
      IsField daysOfMonth 1 31 cron.daysOfMonth ∧ IsField months 1 12 cron.months ∧
      IsField daysOfWeek 0 6 cron.daysOfWeek := by
  unfold parse at h
  split at h
  · rename_i minutes hours daysOfMonth months daysOfWeek hsplit
    simp only [Option.bind_eq_bind, Option.bind_eq_some_iff] at h
    obtain ⟨_, hminutes, _, hhours, _, hdays, _, hmonths, _, hweek, hcron⟩ := h
    obtain rfl := Option.some.inj hcron
    exact ⟨minutes, hours, daysOfMonth, months, daysOfWeek, hsplit,
      isField_parseField hminutes, isField_parseField hhours, isField_parseField hdays,
      isField_parseField hmonths, isField_parseField hweek⟩
  · cases h

theorem nextAfter_eq_some {after : Int} {next : Option Int}
    (h : nextAfter cron after = some next) :
    nextFrom cron (after + 366 * 86400 * 1000000000) (after + 60 * 1000000000) =
      next := by
  unfold nextAfter addSeconds at h
  simp only [Option.bind_eq_bind, Option.bind_eq_some_iff,
    Option.ite_none_right_eq_some] at h
  obtain ⟨_, ⟨_, hcandidate⟩, _, ⟨_, hlimit⟩, hnext⟩ := h
  obtain rfl := Option.some.inj hcandidate
  obtain rfl := Option.some.inj hlimit
  exact Option.some.inj hnext

/-- The search ends with an answer exactly if the point in time 366 days later
has a date. -/
theorem exists_nextAfter_iff (cron : CronExpr) {after : Int} (h : InRange after) :
    (∃ next, nextAfter cron after = some next) ↔
      InRange (after + 366 * 86400 * 1000000000) := by
  constructor
  · rintro ⟨next, hnext⟩
    unfold nextAfter addSeconds at hnext
    simp only [Option.bind_eq_bind, Option.bind_eq_some_iff,
      Option.ite_none_right_eq_some] at hnext
    obtain ⟨_, _, _, ⟨hlimit, _⟩, _⟩ := hnext
    exact hlimit
  · intro hlimit
    -- the first candidate lies between two points that have a date
    have hcandidate : InRange (after + (60 : Nat) * 1000000000) := by
      unfold InRange dateNaive at h hlimit ⊢
      omega
    have hfirst : addSeconds after 60 = some (after + (60 : Nat) * 1000000000) :=
      if_pos hcandidate
    have hlast : addSeconds after (366 * 86400) =
        some (after + (366 * 86400 : Nat) * 1000000000) :=
      if_pos hlimit
    refine ⟨nextFrom cron (after + (366 * 86400 : Nat) * 1000000000)
      (after + (60 : Nat) * 1000000000), ?_⟩
    rw [nextAfter, hfirst, hlast]
    rfl

/-- The next run of an expression is the first minute that its five fields have,
among the minutes of the next 366 days; the search has an answer if the calendar
goes on that long. -/
theorem nextAfter_of_parse {expr : String} (hparse : parse expr = some cron) :
    (∃ minutes hours daysOfMonth months daysOfWeek,
      splitWhitespace expr.toList = [minutes, hours, daysOfMonth, months, daysOfWeek] ∧
      IsField minutes 0 59 cron.minutes ∧ IsField hours 0 23 cron.hours ∧
      IsField daysOfMonth 1 31 cron.daysOfMonth ∧ IsField months 1 12 cron.months ∧
      IsField daysOfWeek 0 6 cron.daysOfWeek) ∧
    (∀ t r, nextAfter cron t = some (some r) →
      minuteStart r = r ∧ t < r ∧ cron.Matches r ∧
        ∀ m, minuteStart m = m → t < m → m < r → ¬ cron.Matches m) ∧
    (∀ t, nextAfter cron t = some none → ∀ k : Nat, 1 ≤ k → k ≤ 366 * 1440 - 1 →
      ¬ cron.Matches (minuteStart t + k * (60 * 1000000000))) ∧
    ∀ t, InRange t → ((∃ next, nextAfter cron t = some next) ↔
      InRange (t + 366 * 86400 * 1000000000)) := by
  refine ⟨fields_of_parse hparse, ?_, ?_, fun t => exists_nextAfter_iff cron⟩
  · intro t r h
    obtain ⟨k, rfl, hmatch, hfirst⟩ := nextFrom_eq_some (nextAfter_eq_some h)
    refine ⟨?_, ?_, (matches_minuteStart cron _).mpr hmatch, ?_⟩
    · unfold minuteStart
      omega
    · unfold minuteStart
      omega
    · intro m hm hlow hhigh hm'
      -- the minute is that of a candidate that was tried before
      obtain ⟨j, hj, hstart⟩ : ∃ j < k,
          minuteStart (t + 60 * 1000000000 + j * (60 * 1000000000)) = m := by
        unfold minuteStart at hm hhigh ⊢
        refine ⟨(m / 60000000000 - t / 60000000000 - 1).toNat, ?_, ?_⟩
        · omega
        · omega
      rw [← hstart, matches_minuteStart] at hm'
      exact hfirst j hj hm'
  · intro t h k hk hk'
    have hlimit : t + 60 * 1000000000 + (k - 1 : Nat) * (60 * 1000000000) <
        t + 366 * 86400 * 1000000000 := by
      omega
    have hnone := nextFrom_eq_none (nextAfter_eq_some h) (k - 1) hlimit
    have hstart : minuteStart (t + 60 * 1000000000 + (k - 1 : Nat) * (60 * 1000000000)) =
        minuteStart t + k * (60 * 1000000000) := by
      unfold minuteStart
      omega
    rw [← hstart, matches_minuteStart]
    exact hnone

/-- Three o'clock every night. -/
def atThree : CronExpr where
  minutes := [0]
  hours := [3]
  daysOfMonth := rangeInclusive 1 31
  months := rangeInclusive 1 12
  daysOfWeek := rangeInclusive 0 6

/-- Half a minute past noon, the next run is at three in the night. -/
theorem nextAfter_three :
    (∃ minutes hours daysOfMonth months daysOfWeek,
      splitWhitespace "0 3 * * *".toList =
        [minutes, hours, daysOfMonth, months, daysOfWeek] ∧
      IsField minutes 0 59 [0] ∧ IsField hours 0 23 [3] ∧
      IsField daysOfMonth 1 31 (rangeInclusive 1 31) ∧
      IsField months 1 12 (rangeInclusive 1 12) ∧
      IsField daysOfWeek 0 6 (rangeInclusive 0 6)) ∧
    nextAfter atThree (1707566430 * 1000000000) =
      some (some (1707620400 * 1000000000)) := by
  have hparse : parse "0 3 * * *" = some atThree := by
    decide +kernel
  obtain ⟨hfields, hsome, hnone, hanswer⟩ := nextAfter_of_parse hparse
  refine ⟨hfields, ?_⟩
  obtain ⟨next, hnext⟩ :=
    (hanswer (1707566430 * 1000000000) (by decide)).mpr (by decide)
  have hthree : atThree.Matches (1707620400 * 1000000000) := by
    decide +kernel
  cases next with
  | none =>
      exact absurd hthree (hnone _ hnext 900 (by decide) (by decide))
  | some r =>
      obtain ⟨hstart, hlater, ⟨hminute, hhour, _⟩, hfirst⟩ := hsome _ r hnext
      have hle : r ≤ 1707620400 * 1000000000 := by
        by_contra hgt
        exact hfirst _ (by decide) (by decide) (not_le.mp hgt) hthree
      -- from noon to three only three o'clock has this hour and minute
      have hminute := List.mem_singleton.mp hminute
      have hhour := List.mem_singleton.mp hhour
      have heq : r = 1707620400 * 1000000000 := by
        unfold minuteStart at hstart
        unfold minute at hminute
        unfold hour at hhour
        omega
      rw [hnext, heq]

end Search

end CronExpr

end Agent
end HyperBackup
