import HyperBackup.Agent.VersionListing
import HyperBackup.Lib.Calendar
import HyperBackup.Lib.Precedence

/-!
# Retention policies

A policy decides which versions are kept: all, the newest ones, those of a
period of time, the newest ones of the last days, weeks and months, or what a
few rules say together.  The versions are sorted first, the newest ones in
front.

A version is before another one if it is newer, or as old and in front of it in
the list that was handed in.  Everything that a policy keeps is said in terms
of this order.

A number of days, weeks or months that is zero keeps nothing, also no version
whose time is still to come.
-/

namespace HyperBackup
namespace Agent

open Lib Lib.Calendar Lib.Precedence

inductive RetentionMode
  | keepAll
  | keepLastN
  | timeBased
  | gfs
  | smart
deriving DecidableEq

structure GfsConfig where
  daily : Nat
  weekly : Nat
  monthly : Nat

structure SmartRules where
  minVersions : Nat
  maxAgeDays : Nat
  preferFirstAndLastOfDay : Bool

structure RetentionPolicy where
  mode : RetentionMode
  keepLastN : Option Nat
  timeBasedRetention : Option Nat
  gfsConfig : Option GfsConfig
  smartRules : Option SmartRules

/-- Why there is no decision: the policy is not complete, or a window begins
before the calendar, which ends the program. -/
inductive RetentionStop
  | invalidPolicy (text : String)
  | outOfCalendar
deriving DecidableEq

namespace RetentionPolicyExecutor

section Operations

def idOf (v : VersionSummary) : VersionId :=
  ⟨v.versionId⟩

/-- The newest versions first. -/
def sorted (versions : List VersionSummary) : List VersionSummary :=
  versions.mergeSort fun v w => w.timestamp ≤ v.timestamp

def computeKeepAll (versions : List VersionSummary) : List VersionId :=
  versions.map idOf

def computeKeepLastN (versions : List VersionSummary) (policy : RetentionPolicy) :
    Except RetentionStop (List VersionId) :=
  match policy.keepLastN with
  | none => .error (.invalidPolicy "keep_last_n not set")
  | some n => .ok ((versions.take n).map idOf)

def computeTimeBased (now : DateTime) (versions : List VersionSummary)
    (policy : RetentionPolicy) : Except RetentionStop (List VersionId) :=
  match policy.timeBasedRetention with
  | none => .error (.invalidPolicy "time_based_retention not set")
  | some retention =>
      let cutoff := now - retention
      if InRange cutoff then
        .ok ((versions.filter fun v => v.timestamp ≥ cutoff).map idOf)
      else .error .outOfCalendar

/-- The first version of every period that is not over. -/
def select {κ : Type} [DecidableEq κ] (period : VersionSummary → κ) (inside : κ → Bool)
    (versions : List VersionSummary) : List VersionId :=
  ((HashMap.toList (firstOfEach period idOf versions)).filter fun e =>
    inside e.1).map Prod.snd

def selectDaily (versions : List VersionSummary) (keepDays : Nat) (now : DateTime) :
    Except RetentionStop (List VersionId) :=
  if keepDays = 0 then .ok []
  else
    let cutoff := dateNaive now - keepDays
    if minDay ≤ cutoff ∧ cutoff ≤ maxDay then
      .ok (select (fun v => dateNaive v.timestamp) (fun date => date > cutoff) versions)
    else .error .outOfCalendar

/-- Weeks are counted from the beginning of 1970. -/
def weekNumber (t : DateTime) : Int :=
  (dateNaive t).tdiv 7

def selectWeekly (versions : List VersionSummary) (keepWeeks : Nat) (now : DateTime) :
    List VersionId :=
  if keepWeeks = 0 then []
  else
    let cutoff := weekNumber now - keepWeeks
    select (fun v => weekNumber v.timestamp) (fun week => week > cutoff) versions

def selectMonthly (versions : List VersionSummary) (keepMonths : Nat) (now : DateTime) :
    List VersionId :=
  if keepMonths = 0 then []
  else
    let cutoffMonths := year (dateNaive now) * 12 + (month (dateNaive now) - 1) -
      keepMonths
    select
      (fun v => (year (dateNaive v.timestamp), month (dateNaive v.timestamp)))
      (fun key => key.1 * 12 + (key.2 - 1) > cutoffMonths) versions

def computeGfs (now : DateTime) (versions : List VersionSummary)
    (policy : RetentionPolicy) : Except RetentionStop (List VersionId) :=
  match policy.gfsConfig with
  | none => .error (.invalidPolicy "gfs_config not set")
  | some gfs => do
      let daily ← selectDaily versions gfs.daily now
      return daily ++ selectWeekly versions gfs.weekly now ++
        selectMonthly versions gfs.monthly now

/-- The last and the first version of every day. -/
def firstAndLastOfDay (versions : List VersionSummary) : List VersionId :=
  (HashMap.toList (groupBy (fun v => dateNaive v.timestamp) versions)).flatMap fun e =>
    (e.2.getLast?.toList ++ e.2.head?.toList).map idOf

def computeSmart (now : DateTime) (versions : List VersionSummary)
    (policy : RetentionPolicy) : Except RetentionStop (List VersionId) :=
  match policy.smartRules with
  | none => .error (.invalidPolicy "smart_rules not set")
  | some rules =>
      let ageCutoff := now - rules.maxAgeDays * 86400000000000
      if InRange ageCutoff then
        .ok ((versions.take rules.minVersions).map idOf ++
          (versions.filter fun v => v.timestamp ≥ ageCutoff).map idOf ++
          if rules.preferFirstAndLastOfDay then firstAndLastOfDay versions else [])
      else .error .outOfCalendar

/-- What the policy keeps of the sorted versions. -/
def keepIds (now : DateTime) (versions : List VersionSummary)
    (policy : RetentionPolicy) : Except RetentionStop (List VersionId) :=
  match policy.mode with
  | .keepAll => .ok (computeKeepAll versions)
  | .keepLastN => computeKeepLastN versions policy
  | .timeBased => computeTimeBased now versions policy
  | .gfs => computeGfs now versions policy
  | .smart => computeSmart now versions policy

def compute (now : DateTime) (versions : List VersionSummary)
    (policy : RetentionPolicy) : Except RetentionStop RetentionDecision := do
  let sorted := sorted versions
  let keep ← keepIds now sorted policy
  return {
    keep := (sorted.filter fun v => idOf v ∈ keep).map idOf
    delete := (sorted.filter fun v => idOf v ∉ keep).map idOf }

end Operations

section Order

/-- One version is newer than another, or as old and in front of it in the
list. -/
def Before (versions : List VersionSummary) (w v : VersionSummary) : Prop :=
  v.timestamp < w.timestamp ∨ (v.timestamp = w.timestamp ∧ InFront versions w v)

instance (versions : List VersionSummary) (w v : VersionSummary) :
    Decidable (Before versions w v) :=
  inferInstanceAs (Decidable (_ ∨ _))

/-- How many versions are before this one. -/
def rank (versions : List VersionSummary) (v : VersionSummary) : Nat :=
  (versions.filter fun w => Before versions w v).length

/-- No version of the same period is before this one, or after it. -/
def Newest {κ : Type} (period : VersionSummary → κ) (versions : List VersionSummary)
    (v : VersionSummary) : Prop :=
  ∀ w ∈ versions, Before versions w v → period w ≠ period v

def Oldest {κ : Type} (period : VersionSummary → κ) (versions : List VersionSummary)
    (v : VersionSummary) : Prop :=
  ∀ w ∈ versions, Before versions v w → period w ≠ period v

def dayOf (v : VersionSummary) : Int :=
  dateNaive v.timestamp

def weekOf (v : VersionSummary) : Int :=
  dateNaive v.timestamp / 7

def monthIndexOf (v : VersionSummary) : Int :=
  monthOf (dateNaive v.timestamp)

variable {versions : List VersionSummary} {v w : VersionSummary}

theorem mem_sorted_iff : v ∈ sorted versions ↔ v ∈ versions :=
  List.mem_mergeSort

theorem sorted_perm (versions : List VersionSummary) : (sorted versions).Perm versions :=
  List.mergeSort_perm versions _

theorem inFront_sorted_iff (hnodup : versions.Nodup) (hw : w ∈ versions)
    (hv : v ∈ versions) :
    InFront (sorted versions) w v ↔ Before versions w v := by
  have htrans : ∀ a b c : VersionSummary, decide (b.timestamp ≤ a.timestamp) = true →
      decide (c.timestamp ≤ b.timestamp) = true →
        decide (c.timestamp ≤ a.timestamp) = true := by
    intro a b c hab hbc
    exact decide_eq_true (Int.le_trans (of_decide_eq_true hbc) (of_decide_eq_true hab))
  have htotal : ∀ a b : VersionSummary, (decide (b.timestamp ≤ a.timestamp) ||
      decide (a.timestamp ≤ b.timestamp)) = true := by
    intro a b
    rw [Bool.or_eq_true, decide_eq_true_iff, decide_eq_true_iff]
    exact Int.le_total _ _
  unfold sorted Before
  rw [inFront_mergeSort_iff htrans htotal hnodup hw hv, decide_eq_false_iff_not,
    decide_eq_true_iff, Int.not_le]
  constructor
  · rintro (hlt | ⟨hle, hfront⟩)
    · exact Or.inl hlt
    · rcases Int.lt_or_eq_of_le hle with hlt | heq
      · exact Or.inl hlt
      · exact Or.inr ⟨heq, hfront⟩
  · rintro (hlt | ⟨heq, hfront⟩)
    · exact Or.inl hlt
    · exact Or.inr ⟨Int.le_of_eq heq, hfront⟩

theorem mem_take_sorted_iff (hnodup : versions.Nodup) (hv : v ∈ versions) {n : Nat} :
    v ∈ (sorted versions).take n ↔ rank versions v < n := by
  have hsorted : (sorted versions).Nodup := (sorted_perm versions).nodup_iff.mpr hnodup
  have hfilter : versions.filter (fun w => InFront (sorted versions) w v) =
      versions.filter fun w => Before versions w v := by
    refine List.filter_congr fun w hw => ?_
    rw [decide_eq_decide]
    exact inFront_sorted_iff hnodup hw hv
  rw [mem_take_iff hsorted (mem_sorted_iff.mpr hv), rank, ← hfilter,
    ((sorted_perm versions).filter _).length_eq]

/-- Nothing of the period is in front in the sorted list. -/
theorem forall_inFront_iff {κ : Type} {period : VersionSummary → κ}
    (hnodup : versions.Nodup) (hv : v ∈ versions) :
    (∀ w, InFront (sorted versions) w v → period w ≠ period v) ↔
      Newest period versions v := by
  constructor
  · intro h w hw hbefore
    exact h w ((inFront_sorted_iff hnodup hw hv).mpr hbefore)
  · intro h w hfront
    have hw : w ∈ versions := mem_sorted_iff.mp hfront.mem_left
    exact h w hw ((inFront_sorted_iff hnodup hw hv).mp hfront)

theorem forall_inFront_reverse_iff {κ : Type} {period : VersionSummary → κ}
    (hnodup : versions.Nodup) (hv : v ∈ versions) :
    (∀ w, InFront (sorted versions).reverse w v → period w ≠ period v) ↔
      Oldest period versions v := by
  constructor
  · intro h w hw hbefore
    exact h w (inFront_reverse_iff.mpr ((inFront_sorted_iff hnodup hv hw).mpr hbefore))
  · intro h w hfront
    have hw : w ∈ versions :=
      mem_sorted_iff.mp (List.mem_reverse.mp hfront.mem_left)
    exact h w hw
      ((inFront_sorted_iff hnodup hv hw).mp (inFront_reverse_iff.mp hfront))

end Order

section Selection

variable {versions : List VersionSummary} {v : VersionSummary}

/-- The versions have different identifiers. -/
def DistinctIds (versions : List VersionSummary) : Prop :=
  (versions.map VersionSummary.versionId).Nodup

theorem DistinctIds.nodup (h : DistinctIds versions) : versions.Nodup :=
  List.Nodup.of_map _ h

theorem DistinctIds.eq_of_idOf (h : DistinctIds versions) {v w : VersionSummary}
    (hv : v ∈ versions) (hw : w ∈ versions) (hid : idOf v = idOf w) : v = w :=
  List.inj_on_of_nodup_map h hv hw (congrArg VersionId.uuid hid)

theorem idOf_mem_map_iff (h : DistinctIds versions) (hv : v ∈ versions)
    {chosen : List VersionSummary} (hchosen : ∀ w ∈ chosen, w ∈ versions) :
    idOf v ∈ chosen.map idOf ↔ v ∈ chosen := by
  constructor
  · intro hmem
    obtain ⟨w, hw, hid⟩ := List.mem_map.mp hmem
    rw [← h.eq_of_idOf (hchosen w hw) hv hid]
    exact hw
  · exact List.mem_map_of_mem

/-- What is selected is the newest version of a period that is not over. -/
theorem mem_select_iff {κ : Type} [DecidableEq κ] {period : VersionSummary → κ}
    {inside : κ → Bool} (h : DistinctIds versions) (hv : v ∈ versions) :
    idOf v ∈ select period inside (sorted versions) ↔
      Newest period versions v ∧ inside (period v) = true := by
  have hsorted : (sorted versions).Nodup := (sorted_perm versions).nodup_iff.mpr h.nodup
  rw [← forall_inFront_iff h.nodup hv,
    ← find?_eq_some_iff hsorted (mem_sorted_iff.mpr hv)]
  unfold select
  simp only [List.mem_map, List.mem_filter, Prod.exists, HashMap.mem_toList,
    lookup_firstOfEach, Option.map_eq_some_iff]
  constructor
  · rintro ⟨k, id, ⟨⟨w, hfind, rfl⟩, hinside⟩, hid⟩
    have hw : w ∈ versions := mem_sorted_iff.mp (List.mem_of_find?_eq_some hfind)
    obtain rfl := h.eq_of_idOf hw hv hid
    have hkey := @List.find?_some _ (fun v => decide (period v = k)) _ _ hfind
    obtain rfl : period w = k := of_decide_eq_true hkey
    exact ⟨hfind, hinside⟩
  · rintro ⟨hfind, hinside⟩
    exact ⟨period v, idOf v, ⟨⟨v, hfind, rfl⟩, hinside⟩, rfl⟩

/-- The ends of a day are the first version found from either end of the list. -/
theorem mem_ends_iff {l : List VersionSummary} {k : Int} {w : VersionSummary} :
    (∃ day, (groupBy dayOf l).lookup k = some day ∧
        w ∈ day.getLast?.toList ++ day.head?.toList) ↔
      (l.reverse.find? fun v => dayOf v = k) = some w ∨
        (l.find? fun v => dayOf v = k) = some w := by
  have hlast : (l.filter fun v => dayOf v = k).getLast? =
      l.reverse.find? fun v => dayOf v = k :=
    List.getLast?_filter
  have hhead : (l.filter fun v => dayOf v = k).head? =
      l.find? fun v => dayOf v = k :=
    List.head?_filter
  rw [lookup_groupBy, ← hlast, ← hhead]
  split
  · rename_i hnil
    rw [hnil]
    simp
  · simp

/-- The first and the last version of every day. -/
theorem mem_firstAndLastOfDay_iff (h : DistinctIds versions) (hv : v ∈ versions) :
    idOf v ∈ firstAndLastOfDay (sorted versions) ↔
      Newest dayOf versions v ∨ Oldest dayOf versions v := by
  have hsorted : (sorted versions).Nodup := (sorted_perm versions).nodup_iff.mpr h.nodup
  have hmem : v ∈ sorted versions := mem_sorted_iff.mpr hv
  rw [← forall_inFront_iff h.nodup hv, ← forall_inFront_reverse_iff h.nodup hv,
    ← find?_eq_some_iff hsorted hmem,
    ← find?_eq_some_iff (List.nodup_reverse.mpr hsorted) (List.mem_reverse.mpr hmem),
    or_comm, ← mem_ends_iff]
  unfold firstAndLastOfDay
  simp only [List.mem_flatMap, List.mem_map, Prod.exists, HashMap.mem_toList]
  constructor
  · rintro ⟨k, day, hlookup, w, hw, hid⟩
    have hw' : w ∈ sorted versions ∧ dayOf w = k := by
      rcases mem_ends_iff.mp ⟨day, hlookup, hw⟩ with hfind | hfind
      · have hkey := @List.find?_some _ (fun v => decide (dayOf v = k)) _ _ hfind
        exact ⟨List.mem_reverse.mp (List.mem_of_find?_eq_some hfind),
          of_decide_eq_true hkey⟩
      · have hkey := @List.find?_some _ (fun v => decide (dayOf v = k)) _ _ hfind
        exact ⟨List.mem_of_find?_eq_some hfind, of_decide_eq_true hkey⟩
    obtain ⟨hw', rfl⟩ := hw'
    obtain rfl := h.eq_of_idOf (mem_sorted_iff.mp hw') hv hid
    exact ⟨day, hlookup, hw⟩
  · rintro ⟨day, hlookup, hends⟩
    exact ⟨dayOf v, day, hlookup, v, hends, rfl⟩

end Selection

section Decision

/-- What a policy keeps. -/
def Keeps (now : DateTime) (versions : List VersionSummary) (policy : RetentionPolicy)
    (v : VersionSummary) : Prop :=
  match policy.mode with
  | .keepAll => True
  | .keepLastN => ∃ n, policy.keepLastN = some n ∧ rank versions v < n
  | .timeBased => ∃ retention : Nat, policy.timeBasedRetention = some retention ∧
      v.timestamp ≥ now - retention
  | .gfs => ∃ gfs, policy.gfsConfig = some gfs ∧
      ((gfs.daily ≠ 0 ∧ Newest dayOf versions v ∧
          dayOf v > dateNaive now - gfs.daily) ∨
        (gfs.weekly ≠ 0 ∧ Newest weekOf versions v ∧
          weekOf v > dateNaive now / 7 - gfs.weekly) ∨
        (gfs.monthly ≠ 0 ∧ Newest monthIndexOf versions v ∧
          monthIndexOf v > monthOf (dateNaive now) - gfs.monthly))
  | .smart => ∃ rules, policy.smartRules = some rules ∧
      (rank versions v < rules.minVersions ∨
        v.timestamp ≥ now - rules.maxAgeDays * 86400000000000 ∨
        (rules.preferFirstAndLastOfDay = true ∧
          (Newest dayOf versions v ∨ Oldest dayOf versions v)))

/-- The parameters of the mode are set, and its windows begin in the
calendar. -/
def IsSet (now : DateTime) (policy : RetentionPolicy) : Prop :=
  match policy.mode with
  | .keepAll => True
  | .keepLastN => ∃ n, policy.keepLastN = some n
  | .timeBased => ∃ retention : Nat, policy.timeBasedRetention = some retention ∧
      InRange (now - retention)
  | .gfs => ∃ gfs, policy.gfsConfig = some gfs ∧
      minDay ≤ dateNaive now - gfs.daily ∧ dateNaive now - gfs.daily ≤ maxDay
  | .smart => ∃ rules, policy.smartRules = some rules ∧
      InRange (now - rules.maxAgeDays * 86400000000000)

variable {now : DateTime} {versions : List VersionSummary} {policy : RetentionPolicy}
variable {v : VersionSummary}

theorem weekNumber_eq {t : DateTime} (ht : 0 ≤ t) : weekNumber t = dateNaive t / 7 := by
  have hday : 0 ≤ dateNaive t := Int.ediv_nonneg ht (by decide)
  exact Int.tdiv_eq_ediv_of_nonneg hday

/-- Periods that correspond to each other have the same newest versions. -/
theorem newest_congr {κ κ' : Type} {period : VersionSummary → κ}
    {period' : VersionSummary → κ'}
    (h : ∀ v ∈ versions, ∀ w ∈ versions, period w = period v ↔ period' w = period' v)
    (hv : v ∈ versions) :
    Newest period versions v ↔ Newest period' versions v := by
  unfold Newest
  refine forall₂_congr fun w hw => ?_
  rw [ne_eq, ne_eq, h v hv w hw]

theorem mem_selectDaily_iff {count : Nat} {ids : List VersionId}
    (h : DistinctIds versions) (hv : v ∈ versions)
    (hids : selectDaily (sorted versions) count now = .ok ids) :
    idOf v ∈ ids ↔
      count ≠ 0 ∧ Newest dayOf versions v ∧ dayOf v > dateNaive now - count := by
  unfold selectDaily at hids
  split at hids
  · rename_i hzero
    obtain rfl := Except.ok.inj hids
    exact iff_of_false List.not_mem_nil fun hnot => hnot.1 hzero
  · rename_i hcount
    simp only at hids
    split at hids
    · obtain rfl := Except.ok.inj hids
      rw [mem_select_iff h hv, decide_eq_true_iff]
      exact (and_iff_right hcount).symm
    · cases hids

theorem mem_selectWeekly_iff {count : Nat} (h : DistinctIds versions) (hv : v ∈ versions)
    (htimes : ∀ v ∈ versions, 0 ≤ v.timestamp) (hnow : 0 ≤ now) :
    idOf v ∈ selectWeekly (sorted versions) count now ↔
      count ≠ 0 ∧ Newest weekOf versions v ∧ weekOf v > dateNaive now / 7 - count := by
  have hweek : ∀ w ∈ versions, weekNumber w.timestamp = weekOf w :=
    fun w hw => weekNumber_eq (htimes w hw)
  unfold selectWeekly
  split
  · rename_i hzero
    exact iff_of_false List.not_mem_nil fun hnot => hnot.1 hzero
  · rename_i hcount
    rw [mem_select_iff h hv, decide_eq_true_iff, hweek v hv, weekNumber_eq hnow,
      newest_congr (fun v hv w hw => by rw [hweek v hv, hweek w hw]) hv]
    exact (and_iff_right hcount).symm

theorem mem_selectMonthly_iff {count : Nat} (h : DistinctIds versions)
    (hv : v ∈ versions) :
    idOf v ∈ selectMonthly (sorted versions) count now ↔
      count ≠ 0 ∧ Newest monthIndexOf versions v ∧
        monthIndexOf v > monthOf (dateNaive now) - count := by
  have hmonth : ∀ day, year day * 12 + (month day - 1) = monthOf day := by
    intro day
    rw [← twelve_mul_year_add day, Int.mul_comm]
  have hkey : ∀ v ∈ versions, ∀ w ∈ versions,
      ((year (dateNaive w.timestamp), month (dateNaive w.timestamp)) =
        (year (dateNaive v.timestamp), month (dateNaive v.timestamp))) ↔
      monthIndexOf w = monthIndexOf v := by
    intro v _ w _
    unfold monthIndexOf
    constructor
    · intro heq
      obtain ⟨hyear, hmonth'⟩ := Prod.mk.inj heq
      rw [← hmonth, ← hmonth, hyear, hmonth']
    · intro heq
      unfold year month
      rw [heq]
  unfold selectMonthly
  split
  · rename_i hzero
    exact iff_of_false List.not_mem_nil fun hnot => hnot.1 hzero
  · rename_i hcount
    rw [mem_select_iff h hv, decide_eq_true_iff, hmonth, hmonth, newest_congr hkey hv]
    exact (and_iff_right hcount).symm

theorem mem_filter_iff {chosen : VersionSummary → Prop} [DecidablePred chosen]
    (h : DistinctIds versions) (hv : v ∈ versions) :
    idOf v ∈ ((sorted versions).filter fun w => chosen w).map idOf ↔ chosen v := by
  rw [idOf_mem_map_iff h hv fun w hw => mem_sorted_iff.mp (List.mem_filter.mp hw).1,
    List.mem_filter, mem_sorted_iff, decide_eq_true_iff, and_iff_right hv]

theorem mem_take_map_iff (h : DistinctIds versions) (hv : v ∈ versions) {n : Nat} :
    idOf v ∈ ((sorted versions).take n).map idOf ↔ rank versions v < n := by
  rw [idOf_mem_map_iff h hv fun w hw => mem_sorted_iff.mp (List.mem_of_mem_take hw),
    mem_take_sorted_iff h.nodup hv]

/-- A policy whose parameters are set comes to a decision. -/
theorem exists_keepIds (hset : IsSet now policy) (versions : List VersionSummary) :
    ∃ ids, keepIds now versions policy = .ok ids := by
  unfold IsSet at hset
  unfold keepIds
  cases hmode : policy.mode with
  | keepAll =>
      exact ⟨_, rfl⟩
  | keepLastN =>
      rw [hmode] at hset
      obtain ⟨n, hn⟩ := hset
      simp only [computeKeepLastN, hn]
      exact ⟨_, rfl⟩
  | timeBased =>
      rw [hmode] at hset
      obtain ⟨retention, hretention, hrange⟩ := hset
      simp only [computeTimeBased, hretention, if_pos hrange]
      exact ⟨_, rfl⟩
  | gfs =>
      rw [hmode] at hset
      obtain ⟨gfs, hgfs, hrange⟩ := hset
      have hdaily : ∃ daily, selectDaily versions gfs.daily now = .ok daily := by
        unfold selectDaily
        simp only [if_pos hrange]
        split
        · exact ⟨_, rfl⟩
        · exact ⟨_, rfl⟩
      obtain ⟨daily, hdaily⟩ := hdaily
      simp only [computeGfs, hgfs, hdaily]
      exact ⟨_, rfl⟩
  | smart =>
      rw [hmode] at hset
      obtain ⟨rules, hrules, hrange⟩ := hset
      simp only [computeSmart, hrules, if_pos hrange]
      exact ⟨_, rfl⟩

theorem mem_computeKeepLastN_iff {ids : List VersionId} (h : DistinctIds versions)
    (hv : v ∈ versions)
    (hids : computeKeepLastN (sorted versions) policy = .ok ids) :
    idOf v ∈ ids ↔ ∃ n, policy.keepLastN = some n ∧ rank versions v < n := by
  unfold computeKeepLastN at hids
  cases hn : policy.keepLastN with
  | none =>
      rw [hn] at hids
      cases hids
  | some n =>
      rw [hn] at hids
      obtain rfl := Except.ok.inj hids
      rw [mem_take_map_iff h hv]
      simp

theorem mem_computeTimeBased_iff {ids : List VersionId} (h : DistinctIds versions)
    (hv : v ∈ versions)
    (hids : computeTimeBased now (sorted versions) policy = .ok ids) :
    idOf v ∈ ids ↔ ∃ retention : Nat, policy.timeBasedRetention = some retention ∧
      v.timestamp ≥ now - retention := by
  unfold computeTimeBased at hids
  cases hretention : policy.timeBasedRetention with
  | none =>
      rw [hretention] at hids
      cases hids
  | some retention =>
      rw [hretention] at hids
      simp only at hids
      split at hids
      · obtain rfl := Except.ok.inj hids
        rw [mem_filter_iff h hv]
        simp
      · cases hids

theorem mem_computeGfs_iff {ids : List VersionId} (h : DistinctIds versions)
    (htimes : ∀ v ∈ versions, 0 ≤ v.timestamp) (hnow : 0 ≤ now) (hv : v ∈ versions)
    (hids : computeGfs now (sorted versions) policy = .ok ids) :
    idOf v ∈ ids ↔ ∃ gfs, policy.gfsConfig = some gfs ∧
      ((gfs.daily ≠ 0 ∧ Newest dayOf versions v ∧
          dayOf v > dateNaive now - gfs.daily) ∨
        (gfs.weekly ≠ 0 ∧ Newest weekOf versions v ∧
          weekOf v > dateNaive now / 7 - gfs.weekly) ∨
        (gfs.monthly ≠ 0 ∧ Newest monthIndexOf versions v ∧
          monthIndexOf v > monthOf (dateNaive now) - gfs.monthly)) := by
  unfold computeGfs at hids
  cases hgfs : policy.gfsConfig with
  | none =>
      rw [hgfs] at hids
      cases hids
  | some gfs =>
      rw [hgfs] at hids
      simp only at hids
      cases hdaily : selectDaily (sorted versions) gfs.daily now with
      | error e =>
          rw [hdaily] at hids
          cases hids
      | ok daily =>
          rw [hdaily] at hids
          obtain rfl := Except.ok.inj hids
          rw [List.mem_append, List.mem_append, mem_selectDaily_iff h hv hdaily,
            mem_selectWeekly_iff h hv htimes hnow, mem_selectMonthly_iff h hv, or_assoc]
          simp

theorem mem_computeSmart_iff {ids : List VersionId} (h : DistinctIds versions)
    (hv : v ∈ versions)
    (hids : computeSmart now (sorted versions) policy = .ok ids) :
    idOf v ∈ ids ↔ ∃ rules, policy.smartRules = some rules ∧
      (rank versions v < rules.minVersions ∨
        v.timestamp ≥ now - rules.maxAgeDays * 86400000000000 ∨
        (rules.preferFirstAndLastOfDay = true ∧
          (Newest dayOf versions v ∨ Oldest dayOf versions v))) := by
  unfold computeSmart at hids
  cases hrules : policy.smartRules with
  | none =>
      rw [hrules] at hids
      cases hids
  | some rules =>
      rw [hrules] at hids
      simp only at hids
      split at hids
      · obtain rfl := Except.ok.inj hids
        have hprefer : idOf v ∈ (if rules.preferFirstAndLastOfDay then
            firstAndLastOfDay (sorted versions) else []) ↔
            rules.preferFirstAndLastOfDay = true ∧
              (Newest dayOf versions v ∨ Oldest dayOf versions v) := by
          cases rules.preferFirstAndLastOfDay with
          | true => simp [mem_firstAndLastOfDay_iff h hv]
          | false => simp
        rw [List.mem_append, List.mem_append, mem_take_map_iff h hv,
          mem_filter_iff h hv, hprefer, or_assoc]
        simp
      · cases hids

/-- What the policy keeps, from the collected identifiers. -/
theorem mem_keepIds_iff {ids : List VersionId} (h : DistinctIds versions)
    (htimes : ∀ v ∈ versions, 0 ≤ v.timestamp) (hnow : 0 ≤ now) (hv : v ∈ versions)
    (hids : keepIds now (sorted versions) policy = .ok ids) :
    idOf v ∈ ids ↔ Keeps now versions policy v := by
  unfold keepIds at hids
  unfold Keeps
  cases hmode : policy.mode with
  | keepAll =>
      rw [hmode] at hids
      obtain rfl := Except.ok.inj hids
      exact iff_of_true (List.mem_map_of_mem (mem_sorted_iff.mpr hv)) trivial
  | keepLastN =>
      rw [hmode] at hids
      exact mem_computeKeepLastN_iff h hv hids
  | timeBased =>
      rw [hmode] at hids
      exact mem_computeTimeBased_iff h hv hids
  | gfs =>
      rw [hmode] at hids
      exact mem_computeGfs_iff h htimes hnow hv hids
  | smart =>
      rw [hmode] at hids
      exact mem_computeSmart_iff h hv hids

end Decision

section Results

/-- The decision divides the versions into those that the policy keeps and the
others, both with the newest ones first. -/
def Decides (now : DateTime) (versions : List VersionSummary)
    (policy : RetentionPolicy) : Prop :=
  ∃ kept deleted : List VersionSummary,
    compute now versions policy =
      .ok { keep := kept.map idOf, delete := deleted.map idOf } ∧
    (kept ++ deleted).Perm versions ∧
    kept.Pairwise (Before versions) ∧ deleted.Pairwise (Before versions) ∧
    ∀ v ∈ versions, v ∈ kept ↔ Keeps now versions policy v

/-- The counts and windows of the second policy are not smaller. -/
structure Widens (policy policy' : RetentionPolicy) : Prop where
  mode : policy'.mode = policy.mode
  keepLastN : ∀ n n', policy.keepLastN = some n → policy'.keepLastN = some n' → n ≤ n'
  timeBasedRetention : ∀ r r', policy.timeBasedRetention = some r →
    policy'.timeBasedRetention = some r' → r ≤ r'
  gfsConfig : ∀ gfs gfs', policy.gfsConfig = some gfs →
    policy'.gfsConfig = some gfs' →
    gfs.daily ≤ gfs'.daily ∧ gfs.weekly ≤ gfs'.weekly ∧ gfs.monthly ≤ gfs'.monthly
  smartRules : ∀ rules rules', policy.smartRules = some rules →
    policy'.smartRules = some rules' →
    rules.minVersions ≤ rules'.minVersions ∧ rules.maxAgeDays ≤ rules'.maxAgeDays ∧
      rules'.preferFirstAndLastOfDay = rules.preferFirstAndLastOfDay

variable {now : DateTime} {versions : List VersionSummary}
variable {policy policy' : RetentionPolicy} {v : VersionSummary}

/-- A wider policy keeps at least as much. -/
theorem Keeps.mono (hwider : Widens policy policy') (hset : IsSet now policy')
    (h : Keeps now versions policy v) : Keeps now versions policy' v := by
  unfold IsSet at hset
  unfold Keeps at h ⊢
  rw [hwider.mode] at hset ⊢
  cases hmode : policy.mode with
  | keepAll =>
      trivial
  | keepLastN =>
      rw [hmode] at h hset
      obtain ⟨n, hn, hrank⟩ := h
      obtain ⟨n', hn'⟩ := hset
      exact ⟨n', hn', Nat.lt_of_lt_of_le hrank (hwider.keepLastN n n' hn hn')⟩
  | timeBased =>
      rw [hmode] at h hset
      obtain ⟨retention, hretention, htime⟩ := h
      obtain ⟨retention', hretention', _⟩ := hset
      have hle := hwider.timeBasedRetention _ _ hretention hretention'
      refine ⟨retention', hretention', ?_⟩
      have htime' : now - (retention : Int) ≤ v.timestamp := htime
      exact Int.le_trans (by omega) htime'
  | gfs =>
      rw [hmode] at h hset
      obtain ⟨gfs, hgfs, hrules⟩ := h
      obtain ⟨gfs', hgfs', _⟩ := hset
      obtain ⟨hdaily, hweekly, hmonthly⟩ := hwider.gfsConfig _ _ hgfs hgfs'
      refine ⟨gfs', hgfs', ?_⟩
      rcases hrules with ⟨hcount, hnewest, hlater⟩ | ⟨hcount, hnewest, hlater⟩ |
        ⟨hcount, hnewest, hlater⟩
      · exact Or.inl ⟨by omega, hnewest, by omega⟩
      · exact Or.inr (Or.inl ⟨by omega, hnewest, by omega⟩)
      · exact Or.inr (Or.inr ⟨by omega, hnewest, by omega⟩)
  | smart =>
      rw [hmode] at h hset
      obtain ⟨rules, hrules, hkeep⟩ := h
      obtain ⟨rules', hrules', _⟩ := hset
      obtain ⟨hmin, hage, hprefer⟩ := hwider.smartRules _ _ hrules hrules'
      refine ⟨rules', hrules', ?_⟩
      rcases hkeep with hrank | htime | hends
      · exact Or.inl (Nat.lt_of_lt_of_le hrank hmin)
      · have htime' : now - (rules.maxAgeDays : Int) * 86400000000000 ≤ v.timestamp :=
          htime
        exact Or.inr (Or.inl (Int.le_trans (by omega) htime'))
      · rw [hprefer]
        exact Or.inr (Or.inr hends)

/-- The sorted list is in order. -/
theorem pairwise_before_sorted (h : DistinctIds versions) :
    (sorted versions).Pairwise (Before versions) := by
  rw [List.pairwise_iff_forall_sublist]
  intro w v hsub
  have hw : w ∈ versions := mem_sorted_iff.mp (hsub.subset List.mem_cons_self)
  have hv : v ∈ versions :=
    mem_sorted_iff.mp (hsub.subset (List.mem_cons_of_mem _ List.mem_cons_self))
  exact (inFront_sorted_iff h.nodup hw hv).mp hsub

theorem decides_of_isSet (h : DistinctIds versions)
    (htimes : ∀ v ∈ versions, 0 ≤ v.timestamp) (hnow : 0 ≤ now)
    (hset : IsSet now policy) : Decides now versions policy := by
  obtain ⟨ids, hids⟩ := exists_keepIds hset (sorted versions)
  refine ⟨(sorted versions).filter fun v => idOf v ∈ ids,
    (sorted versions).filter fun v => idOf v ∉ ids, ?_, ?_, ?_, ?_, ?_⟩
  · unfold compute
    simp only [hids]
    rfl
  · have hperm := List.filter_append_perm (fun v => decide (idOf v ∈ ids))
      (sorted versions)
    simp only [decide_not]
    exact hperm.trans (sorted_perm versions)
  · exact (pairwise_before_sorted h).filter _
  · exact (pairwise_before_sorted h).filter _
  · intro v hv
    rw [List.mem_filter, mem_sorted_iff, decide_eq_true_iff, and_iff_right hv]
    exact mem_keepIds_iff h htimes hnow hv hids

/-- The identifiers that are kept. -/
theorem idOf_mem_keep_iff {decision : RetentionDecision} (h : DistinctIds versions)
    (hdecides : Decides now versions policy)
    (hdecision : compute now versions policy = .ok decision) (hv : v ∈ versions) :
    idOf v ∈ decision.keep ↔ Keeps now versions policy v := by
  obtain ⟨kept, deleted, hcompute, hperm, _, _, hkept⟩ := hdecides
  obtain rfl := Except.ok.inj (hdecision.symm.trans hcompute)
  have hmem : ∀ w ∈ kept, w ∈ versions :=
    fun w hw => hperm.mem_iff.mp (List.mem_append_left deleted hw)
  rw [idOf_mem_map_iff h hv hmem, hkept v hv]

/-- The decision for a policy, and that a wider policy keeps what it keeps. -/
theorem compute_decides (h : DistinctIds versions)
    (htimes : ∀ v ∈ versions, 0 ≤ v.timestamp) (hnow : 0 ≤ now)
    (hset : IsSet now policy) :
    Decides now versions policy ∧
      ∀ policy', Widens policy policy' → IsSet now policy' →
        ∀ decision decision', compute now versions policy = .ok decision →
          compute now versions policy' = .ok decision' →
          ∀ v ∈ versions, idOf v ∈ decision.keep → idOf v ∈ decision'.keep := by
  have hdecides := decides_of_isSet h htimes hnow hset
  refine ⟨hdecides, ?_⟩
  intro policy' hwider hset' decision decision' hdecision hdecision' v hv hkeep
  have hdecides' := decides_of_isSet h htimes hnow hset'
  rw [idOf_mem_keep_iff h hdecides hdecision hv] at hkeep
  rw [idOf_mem_keep_iff h hdecides' hdecision' hv]
  exact hkeep.mono hwider hset'

def noon : DateTime :=
  20000 * 86400000000000 + 43200000000000

/-- Two versions of today, one of yesterday, one of last month and one of the
month before. -/
def fiveVersions : List VersionSummary :=
  [(1, 20000 * 24 + 10), (2, 20000 * 24 + 8), (3, 19999 * 24), (4, 19991 * 24),
    (5, 19960 * 24)].map fun (id, hour) =>
      { versionId := id
        versionNumber := 1
        timestamp := hour * 3600000000000
        backupType := .full
        totalSize := 0
        storedSize := 0 }

/-- Keep the newest versions of so many days, weeks and months. -/
def gfsPolicy (daily weekly monthly : Nat) : RetentionPolicy where
  mode := .gfs
  keepLastN := none
  timeBasedRetention := none
  gfsConfig := some ⟨daily, weekly, monthly⟩
  smartRules := none

theorem sorted_fiveVersions : sorted fiveVersions = fiveVersions :=
  List.mergeSort_of_pairwise (by decide)

theorem compute_gfsPolicy : compute noon fiveVersions (gfsPolicy 1 2 2) =
      .ok { keep := [⟨1⟩, ⟨4⟩], delete := [⟨2⟩, ⟨3⟩, ⟨5⟩] } ∧
    compute noon fiveVersions (gfsPolicy 2 3 3) =
      .ok { keep := [⟨1⟩, ⟨3⟩, ⟨4⟩, ⟨5⟩], delete := [⟨2⟩] } := by
  unfold compute
  rw [sorted_fiveVersions]
  exact ⟨rfl, rfl⟩

theorem widens_gfsPolicy : Widens (gfsPolicy 1 2 2) (gfsPolicy 2 3 3) where
  mode := rfl
  keepLastN := by
    intro n n' hn
    cases hn
  timeBasedRetention := by
    intro r r' hr
    cases hr
  gfsConfig := by
    intro gfs gfs' hgfs hgfs'
    obtain rfl := Option.some.inj hgfs
    obtain rfl := Option.some.inj hgfs'
    decide
  smartRules := by
    intro rules rules' hrules
    cases hrules

/-- What the narrow policy keeps of the five versions, and that the wide one
keeps it as well. -/
theorem decides_fiveVersions :
    compute noon fiveVersions (gfsPolicy 1 2 2) =
        .ok { keep := [⟨1⟩, ⟨4⟩], delete := [⟨2⟩, ⟨3⟩, ⟨5⟩] } ∧
      compute noon fiveVersions (gfsPolicy 2 3 3) =
        .ok { keep := [⟨1⟩, ⟨3⟩, ⟨4⟩, ⟨5⟩], delete := [⟨2⟩] } ∧
      Decides noon fiveVersions (gfsPolicy 1 2 2) ∧
      ∀ v ∈ fiveVersions, idOf v ∈ [⟨1⟩, ⟨4⟩] → idOf v ∈ [⟨1⟩, ⟨3⟩, ⟨4⟩, ⟨5⟩] := by
  have hids : (fiveVersions.map VersionSummary.versionId).Nodup := by decide
  have hset : IsSet noon (gfsPolicy 1 2 2) := ⟨_, rfl, by decide, by decide⟩
  have hset' : IsSet noon (gfsPolicy 2 3 3) := ⟨_, rfl, by decide, by decide⟩
  obtain ⟨hnarrow, hwide⟩ := compute_gfsPolicy
  obtain ⟨hdecides, hkeeps⟩ := compute_decides hids (by decide) (by decide) hset
  exact ⟨hnarrow, hwide, hdecides, hkeeps (gfsPolicy 2 3 3) widens_gfsPolicy hset' _ _
    hnarrow hwide⟩

/-- A version of the day after now. -/
def tomorrow : VersionSummary where
  versionId := 1
  versionNumber := 1
  timestamp := 20001 * 86400000000000
  backupType := .full
  totalSize := 0
  storedSize := 0

/-- Keep nothing by days, weeks and months. -/
def keepNone : RetentionPolicy where
  mode := .gfs
  keepLastN := none
  timeBasedRetention := none
  gfsConfig := some ⟨0, 0, 0⟩
  smartRules := none

theorem isSet_keepNone : IsSet noon keepNone :=
  ⟨⟨0, 0, 0⟩, rfl, by decide, by decide⟩

theorem newest_tomorrow {κ : Type} (period : VersionSummary → κ) :
    Newest period [tomorrow] tomorrow := by
  intro w hw hbefore
  obtain rfl := List.mem_singleton.mp hw
  rcases hbefore with hlt | ⟨_, hfront⟩
  · exact absurd hlt (Int.lt_irrefl _)
  · exact absurd rfl (hfront.ne (List.nodup_singleton _))

theorem distinctIds_tomorrow : DistinctIds [tomorrow] :=
  List.nodup_singleton _

/-- The newest version of a day after today less zero days is not kept. -/
theorem tomorrow_not_kept :
    DistinctIds [tomorrow] ∧ 0 ≤ tomorrow.timestamp ∧ 0 ≤ noon ∧
      IsSet noon keepNone ∧
      (Newest dayOf [tomorrow] tomorrow ∧
        dayOf tomorrow > dateNaive noon - (0 : Nat)) ∧
      ∃ decision, compute noon [tomorrow] keepNone = .ok decision ∧
        idOf tomorrow ∉ decision.keep := by
  refine ⟨distinctIds_tomorrow, by decide, by decide, isSet_keepNone,
    ⟨newest_tomorrow dayOf, by decide⟩, ?_⟩
  refine ⟨{ keep := [], delete := [idOf tomorrow] }, ?_, List.not_mem_nil⟩
  have hsorted : sorted [tomorrow] = [tomorrow] := List.mergeSort_singleton _
  unfold compute
  rw [hsorted]
  rfl

end Results

end RetentionPolicyExecutor

end Agent
end HyperBackup
