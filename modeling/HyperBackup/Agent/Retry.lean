import Mathlib.Data.List.Range
import Mathlib.Tactic.GCongr
import HyperBackup.Agent.Repo

/-!
# Retrying repository operations

`RetryRepository` calls an operation again after an I/O or transfer error and
waits before each repetition.  The wait doubles with every attempt and is
capped only after the multiplication, so the power and the product may leave
64 bits.  A build with overflow checks ends the program there; one without
them goes on with the wrapped value.  A run records both.
-/

namespace HyperBackup
namespace Agent

universe u

/-- Waits are in whole milliseconds. -/
structure RetryRepository where
  maxRetries : Nat
  initialBackoff : Nat
  maxBackoff : Nat
deriving DecidableEq, Repr

/-- What one call of `retry` does; without an outcome the program has panicked. -/
structure RetryRun (α : Type u) where
  calls : Nat
  waits : List Nat
  overflowed : Bool
  outcome : Option (Except RepoError α)

namespace RetryRepository

def new : RetryRepository where
  maxRetries := 5
  initialBackoff := 1000
  maxBackoff := 30000

def withConfig (maxRetries initialBackoff maxBackoff : Nat) : RetryRepository :=
  ⟨maxRetries, initialBackoff, maxBackoff⟩

/-- The wait and whether the power or the product overflowed. -/
def backoff (r : RetryRepository) (attempt : Nat) : Nat × Bool :=
  let initial := r.initialBackoff % 2 ^ 64
  let power := 2 ^ attempt
  let millis := initial * (power % 2 ^ 64)
  (min (millis % 2 ^ 64) r.maxBackoff,
    decide (2 ^ 64 ≤ power) || decide (2 ^ 64 ≤ millis))

def isRetryable : RepoError → Bool
  | .io _ => true
  | .failed _ => true
  | _ => false

section Retry

variable {α : Type u}

/-- The loop of `retry`; `f` gives the result of each call. -/
def retryLoop (r : RetryRepository) (checks : Bool)
    (f : Nat → Except RepoError α) (lastErr : Option RepoError) :
    List Nat → RetryRun α
  | [] =>
      ⟨0, [], false, some (.error (lastErr.getD (.failed "retry exhausted")))⟩
  | attempt :: attempts =>
      match f attempt with
      | .ok result => ⟨1, [], false, some (.ok result)⟩
      | .error e =>
          if !isRetryable e || attempt == r.maxRetries then
            ⟨1, [], false, some (.error e)⟩
          else
            let (wait, overflowed) := backoff r attempt
            if checks && overflowed then
              ⟨1, [], true, none⟩
            else
              let later := retryLoop r checks f (some e) attempts
              ⟨later.calls + 1, wait :: later.waits,
                overflowed || later.overflowed, later.outcome⟩

def retry (r : RetryRepository) (checks : Bool)
    (f : Nat → Except RepoError α) : RetryRun α :=
  retryLoop r checks f none (List.range (r.maxRetries + 1))

/-- A result after which the loop may go on. -/
def Retryable (result : Except RepoError α) : Prop :=
  ∃ e, result = .error e ∧ isRetryable e = true

/-- The `n`-th wait as it is meant. -/
def intendedWait (r : RetryRepository) (n : Nat) : Nat :=
  min (r.initialBackoff * 2 ^ n) r.maxBackoff

/-- The run is the one that is meant, seen from attempt `k` on. -/
structure ConformsFrom (r : RetryRepository) (f : Nat → Except RepoError α)
    (k last : Nat) (run : RetryRun α) : Prop where
  ordered : k ≤ last ∧ last ≤ r.maxRetries
  calls : run.calls + k = last + 1
  retried : ∀ m, k ≤ m → m < last → Retryable (f m)
  decided : ¬ Retryable (f last) ∨ last = r.maxRetries
  outcome : run.outcome = some (f last)
  waits : run.waits = (List.range' k (last - k)).map (intendedWait r)
  exact : run.overflowed = false

/-- The `n`-th wait is computed without leaving 64 bits, and as it is meant. -/
def SafeWait (r : RetryRepository) (n : Nat) : Prop :=
  n < 64 ∧ r.initialBackoff % 2 ^ 64 * 2 ^ n < 2 ^ 64 ∧
    (r.initialBackoff < 2 ^ 64 ∨
      r.maxBackoff ≤ r.initialBackoff % 2 ^ 64 * 2 ^ n)

theorem backoff_eq_intended_iff (r : RetryRepository) (n : Nat) :
    backoff r n = (intendedWait r n, false) ↔ SafeWait r n := by
  have hpower : 2 ^ n < 2 ^ 64 ↔ n < 64 :=
    Nat.pow_lt_pow_iff_right (by omega)
  by_cases hn : n < 64
  · have hmod : 2 ^ n % 2 ^ 64 = 2 ^ n := Nat.mod_eq_of_lt (hpower.mpr hn)
    have hnot : ¬ 2 ^ 64 ≤ 2 ^ n := Nat.not_le.mpr (hpower.mpr hn)
    simp only [backoff, SafeWait, intendedWait, hmod, Prod.mk.injEq, Bool.or_eq_false_iff,
      decide_eq_false_iff_not, hnot, hn, not_false_eq_true, true_and, Nat.not_le]
    generalize hproduct : r.initialBackoff % 2 ^ 64 * 2 ^ n = product
    have hle : product ≤ r.initialBackoff * 2 ^ n := by
      rw [← hproduct]
      exact Nat.mul_le_mul_right _ (Nat.mod_le _ _)
    rw [and_comm]
    refine and_congr_right fun hlt => ?_
    rw [Nat.mod_eq_of_lt hlt]
    by_cases hinitial : r.initialBackoff < 2 ^ 64
    · have heq : product = r.initialBackoff * 2 ^ n := by
        rw [← hproduct, Nat.mod_eq_of_lt hinitial]
      simp only [heq, hinitial, true_or]
    · -- the cast has dropped the high part, so the product is too small
      have hpos : 0 < 2 ^ n := Nat.two_pow_pos n
      have hsmall : product < r.initialBackoff * 2 ^ n := by
        rw [← hproduct]
        exact Nat.mul_lt_mul_of_pos_right
          (Nat.lt_of_lt_of_le (Nat.mod_lt _ (by omega)) (by omega)) hpos
      simp only [hinitial, false_or]
      omega
  · have hle : 2 ^ 64 ≤ 2 ^ n := Nat.not_lt.mp fun h => hn (hpower.mp h)
    have hflag : (backoff r n).2 = true := by
      simp only [backoff, decide_eq_true hle, Bool.true_or]
    constructor
    · intro h
      rw [h] at hflag
      cases hflag
    · intro h
      exact absurd h.1 hn

section Loop

variable {r : RetryRepository} {checks : Bool} {f : Nat → Except RepoError α}
variable {lastErr : Option RepoError} {k : Nat} {attempts : List Nat}

theorem retryLoop_of_decided
    (h : ¬ Retryable (f k) ∨ k = r.maxRetries) :
    retryLoop r checks f lastErr (k :: attempts) = ⟨1, [], false, some (f k)⟩ := by
  cases hresult : f k with
  | ok result =>
      simp only [retryLoop, hresult]
  | error e =>
      have hstop : (!isRetryable e || k == r.maxRetries) = true := by
        rcases h with hnot | hlast
        · have hfinal : isRetryable e = false :=
            Bool.eq_false_iff.mpr fun htrue => hnot ⟨e, hresult, htrue⟩
          simp [hfinal]
        · simp [hlast]
      simp only [retryLoop, hresult, if_pos hstop]

theorem retryLoop_of_retryable
    (h : Retryable (f k)) (hk : k ≠ r.maxRetries) :
    ∃ e, retryLoop r checks f lastErr (k :: attempts) =
      if checks && (backoff r k).2 then
        ⟨1, [], true, none⟩
      else
        let later := retryLoop r checks f (some e) attempts
        ⟨later.calls + 1, (backoff r k).1 :: later.waits,
          (backoff r k).2 || later.overflowed, later.outcome⟩ := by
  obtain ⟨e, hresult, hretry⟩ := h
  have hgo : ¬ (!isRetryable e || k == r.maxRetries) = true := by
    simp [hretry, hk]
  exact ⟨e, by rw [retryLoop, hresult]; simp only [if_neg hgo]⟩

/-- A decided attempt is the last one, and it waits for nothing. -/
theorem conformsFrom_self
    (hk : k ≤ r.maxRetries) (h : ¬ Retryable (f k) ∨ k = r.maxRetries) :
    ConformsFrom r f k k ⟨1, [], false, some (f k)⟩ where
  ordered := ⟨le_refl k, hk⟩
  calls := Nat.add_comm 1 k
  retried := fun m hle hlt => absurd hlt (by omega)
  decided := h
  outcome := rfl
  waits := by simp
  exact := rfl

/-- With a wait before it a conforming run stays one exactly if the wait is right. -/
theorem conformsFrom_cons_iff
    {later : RetryRun α} {wait : Nat} {overflowed : Bool}
    (h : Retryable (f k)) (hk : k < r.maxRetries) :
    (∃ last, ConformsFrom r f k last
      ⟨later.calls + 1, wait :: later.waits,
        overflowed || later.overflowed, later.outcome⟩) ↔
      (wait, overflowed) = (intendedWait r k, false) ∧
        ∃ last, ConformsFrom r f (k + 1) last later := by
  constructor
  · rintro ⟨last, hrun⟩
    have hne : k ≠ last := by
      rintro rfl
      rcases hrun.decided with hnot | hlast
      · exact hnot h
      · omega
    have hlt : k < last := Nat.lt_of_le_of_ne hrun.ordered.1 hne
    have hrange : List.range' k (last - k) =
        k :: List.range' (k + 1) (last - (k + 1)) := by
      rw [← List.range'_succ, Nat.sub_add_eq, Nat.sub_add_cancel (by omega)]
    have hwaits := hrun.waits
    rw [hrange, List.map_cons] at hwaits
    obtain ⟨hwait, hlater⟩ := List.cons.inj hwaits
    obtain ⟨hflag, hexact⟩ := Bool.or_eq_false_iff.mp hrun.exact
    have hcalls : later.calls + 1 + k = last + 1 := hrun.calls
    exact ⟨by rw [hwait, hflag], last,
      ⟨hlt, hrun.ordered.2⟩, by omega,
      fun m hle => hrun.retried m (by omega), hrun.decided, hrun.outcome,
      hlater, hexact⟩
  · rintro ⟨hwait, last, hlater⟩
    obtain ⟨rfl, rfl⟩ := Prod.mk.inj hwait
    have hlt : k < last := hlater.ordered.1
    have hrange : List.range' k (last - k) =
        k :: List.range' (k + 1) (last - (k + 1)) := by
      rw [← List.range'_succ, Nat.sub_add_eq, Nat.sub_add_cancel (by omega)]
    have hcalls := hlater.calls
    refine ⟨last, ⟨by omega, hlater.ordered.2⟩, ?_, ?_, hlater.decided,
      hlater.outcome, ?_, ?_⟩
    · show later.calls + 1 + k = last + 1
      omega
    · intro m hle hm
      rcases Nat.eq_or_lt_of_le hle with rfl | hkm
      · exact h
      · exact hlater.retried m hkm hm
    · show intendedWait r k :: later.waits = _
      rw [hrange, List.map_cons, hlater.waits]
    · show (false || later.overflowed) = false
      rw [hlater.exact]
      rfl

/-- An attempt that is repeated conforms if its wait is right and the rest conforms. -/
theorem conformsFrom_retry_iff
    (h : Retryable (f k)) (hk : k < r.maxRetries) :
    ∃ e, (∃ last, ConformsFrom r f k last
        (retryLoop r checks f lastErr (k :: attempts))) ↔
      backoff r k = (intendedWait r k, false) ∧
        ∃ last, ConformsFrom r f (k + 1) last
          (retryLoop r checks f (some e) attempts) := by
  obtain ⟨e, hloop⟩ := @retryLoop_of_retryable _ r checks f lastErr k attempts h
    (by omega)
  refine ⟨e, ?_⟩
  rw [hloop]
  split
  · next hpanic =>
      have hflag : (backoff r k).2 = true := (Bool.and_eq_true_iff.mp hpanic).2
      constructor
      · rintro ⟨last, hrun⟩
        cases hrun.exact
      · rintro ⟨heq, -⟩
        rw [heq] at hflag
        cases hflag
  · exact conformsFrom_cons_iff h hk

/-- From attempt `k` on the run conforms exactly if every wait it makes is safe. -/
theorem conformsFrom_iff
    (r : RetryRepository) (checks : Bool) (f : Nat → Except RepoError α)
    (d : Nat) (lastErr : Option RepoError) (k : Nat) (hd : k + d = r.maxRetries) :
    (∃ last, ConformsFrom r f k last
      (retryLoop r checks f lastErr (List.range' k (d + 1)))) ↔
      ∀ n, k ≤ n → n < r.maxRetries →
        (∀ m, k ≤ m → m ≤ n → Retryable (f m)) → SafeWait r n := by
  rw [List.range'_succ]
  induction d generalizing k lastErr with
  | zero =>
      have hk : k = r.maxRetries := hd
      rw [retryLoop_of_decided (Or.inr hk)]
      constructor
      · intro _ n hkn hn
        omega
      · intro _
        exact ⟨k, conformsFrom_self (by omega) (Or.inr hk)⟩
  | succ d ih =>
      by_cases hretry : Retryable (f k)
      · obtain ⟨e, hstep⟩ := @conformsFrom_retry_iff _ r checks f lastErr k
          (List.range' (k + 1) (d + 1)) hretry (by omega)
        rw [List.range'_succ] at hstep
        rw [List.range'_succ]
        rw [hstep, backoff_eq_intended_iff, ih (some e) (k + 1) (by omega)]
        constructor
        · rintro ⟨hsafe, hlater⟩ n hkn hn hall
          rcases Nat.eq_or_lt_of_le hkn with rfl | hlt
          · exact hsafe
          · exact hlater n hlt hn fun m hle => hall m (by omega)
        · intro hall
          refine ⟨hall k (le_refl k) (by omega) fun m hle hm => ?_, ?_⟩
          · obtain rfl : m = k := by omega
            exact hretry
          · intro n hkn hn hlater
            refine hall n (by omega) hn fun m hle hm => ?_
            rcases Nat.eq_or_lt_of_le hle with rfl | hlt
            · exact hretry
            · exact hlater m hlt hm
      · rw [retryLoop_of_decided (Or.inl hretry)]
        constructor
        · intro _ n hkn hn hall
          exact absurd (hall k (le_refl k) hkn) hretry
        · intro _
          exact ⟨k, conformsFrom_self (by omega) (Or.inl hretry)⟩

end Loop

/-- A run of `retry` as it is meant. -/
structure Conforms (r : RetryRepository) (f : Nat → Except RepoError α)
    (run : RetryRun α) : Prop where
  /-- At most one call more than there are retries. -/
  bounded : run.calls ≤ r.maxRetries + 1
  /-- All calls before the last one failed in a way that allows another one; the
  last one did not, or it was the last allowed, and its result is returned. -/
  decided : ∃ last, run.calls = last + 1 ∧
    (∀ m < last, Retryable (f m)) ∧
    (¬ Retryable (f last) ∨ last = r.maxRetries) ∧
    run.outcome = some (f last)
  waits : run.waits =
    (List.range (run.calls - 1)).map fun n =>
      min (r.initialBackoff * 2 ^ n) r.maxBackoff
  nonDecreasing : run.waits.Pairwise (· ≤ ·)
  exact : run.overflowed = false

theorem conforms_iff_conformsFrom
    {r : RetryRepository} {f : Nat → Except RepoError α} {run : RetryRun α} :
    Conforms r f run ↔ ∃ last, ConformsFrom r f 0 last run := by
  constructor
  · intro h
    obtain ⟨last, hcalls, hretried, hdecided, houtcome⟩ := h.decided
    have hbounded := h.bounded
    refine ⟨last, ⟨Nat.zero_le _, by omega⟩, hcalls, fun m _ => hretried m,
      hdecided, houtcome, ?_, h.exact⟩
    rw [h.waits, hcalls, List.range_eq_range']
    rfl
  · rintro ⟨last, h⟩
    have hcalls : run.calls = last + 1 := h.calls
    have hordered := h.ordered
    refine ⟨by omega, ⟨last, hcalls, fun m => h.retried m (Nat.zero_le m),
      h.decided, h.outcome⟩, ?_, ?_, h.exact⟩
    · rw [h.waits, hcalls, List.range_eq_range']
      rfl
    · rw [h.waits, List.pairwise_map]
      have hsorted : (List.range' 0 (last - 0)).Pairwise (· < ·) :=
        List.pairwise_lt_range'
      refine hsorted.imp fun {m n} hlt => ?_
      have hpower : 2 ^ m ≤ 2 ^ n := Nat.pow_le_pow_right (by omega) (Nat.le_of_lt hlt)
      have hproduct := Nat.mul_le_mul_left r.initialBackoff hpower
      unfold intendedWait
      omega

/-- The run of `retry` is the one that is meant exactly if every wait it comes to is safe. -/
theorem conforms_retry_iff
    (r : RetryRepository) (checks : Bool) (f : Nat → Except RepoError α) :
    Conforms r f (retry r checks f) ↔
      ∀ n < r.maxRetries, (∀ m ≤ n, Retryable (f m)) → SafeWait r n := by
  have h := conformsFrom_iff r checks f r.maxRetries none 0 (by omega)
  rw [conforms_iff_conformsFrom, retry, List.range_eq_range', h]
  simp only [Nat.zero_le, true_implies]

/-- After sixty-five failures in a row the next wait does not fit into 64 bits. -/
theorem not_conforms_many_retries :
    ¬ ∀ (r : RetryRepository) (checks : Bool) (f : Nat → Except RepoError Unit),
      Conforms r f (retry r checks f) := by
  intro hall
  have hconforms := conforms_iff_conformsFrom.mp
    (hall (withConfig 65 1 30000) true fun _ => .error (.failed "simulated network error"))
  rw [retry, List.range_eq_range'] at hconforms
  have hsafe := (conformsFrom_iff _ _ _ 65 none 0 rfl).mp hconforms 64 (by omega) (by decide)
    fun m _ _ => ⟨.failed "simulated network error", rfl, rfl⟩
  exact absurd hsafe.1 (by omega)

/-- The default configuration waits as it is meant to. -/
theorem new_conforms (checks : Bool) (f : Nat → Except RepoError α) :
    Conforms new f (retry new checks f) := by
  have hsafe : ∀ n < 5, SafeWait new n := by
    unfold SafeWait
    decide
  refine conforms_iff_conformsFrom.mpr ?_
  rw [retry, List.range_eq_range']
  exact (conformsFrom_iff new checks f 5 none 0 rfl).mpr fun n _ hn _ => hsafe n hn

end Retry
end RetryRepository
end Agent
end HyperBackup
