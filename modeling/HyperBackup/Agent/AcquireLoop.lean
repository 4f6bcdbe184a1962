import HyperBackup.Agent.RateLimit
import Mathlib.Tactic.Ring

/-!
# How long a caller waits for its tokens

A caller of `acquire` refills the bucket and takes its tokens, or sleeps and
starts again.  A sleep lasts at least as long as was computed.  The level is cut
at the capacity on every refill, so a caller whose bytes fit into the bucket
waits at most once, and one whose bytes do not fit never gets them.
-/

namespace HyperBackup
namespace Agent

namespace TokenBucket

/-- One pass of the loop of `acquire`. -/
def acquirePass (bytes : Nat) (now : ℚ) (b : TokenBucket) : Attempt × TokenBucket :=
  (b.refill now).acquireTake bytes

/-- The bucket that `acquire` leaves, if it returns within a number of passes.
The waits last longer than computed by the times of `late`. -/
def acquire (bytes : Nat) : Nat → (late : Nat → ℚ) → ℚ → TokenBucket → Option TokenBucket
  | 0, _, _, _ => none
  | passes + 1, late, now, b =>
      match b.acquirePass bytes now with
      | (.wait duration, b') =>
          acquire bytes passes (fun k => late (k + 1)) (now + (duration + late 0)) b'
      | (_, b') => some b'

end TokenBucket

/-- The caller comes back after some number of passes. -/
def AcquireReturns (bytes : Nat) (late : Nat → ℚ) (now : ℚ) (b : TokenBucket) : Prop :=
  ∃ passes, (b.acquire bytes passes late now).isSome

/-- Each wait lasts at least as long as was computed. -/
def WaitsInFull (late : Nat → ℚ) : Prop :=
  ∀ k, 0 ≤ late k

section Passes

variable {b : TokenBucket} {bytes : Nat} {now : ℚ} {late : Nat → ℚ}

@[simp] theorem capacity_refill : (b.refill now).capacity = b.capacity :=
  rfl

@[simp] theorem refillRate_refill : (b.refill now).refillRate = b.refillRate :=
  rfl

@[simp] theorem lastRefill_refill : (b.refill now).lastRefill = now :=
  rfl

theorem tokens_refill_le : (b.refill now).tokens ≤ b.capacity :=
  min_le_right _ _

theorem acquirePass_granted (h : (bytes : ℚ) ≤ (b.refill now).tokens) :
    b.acquirePass bytes now = (.granted, (b.refill now).less bytes) := by
  rw [TokenBucket.acquirePass, TokenBucket.acquireTake, if_pos h]

theorem acquirePass_wait (hrate : 0 < b.refillRate)
    (h : (b.refill now).tokens < bytes) :
    b.acquirePass bytes now =
      (.wait ((bytes - (b.refill now).tokens) / b.refillRate), b.refill now) := by
  have hne : (b.refill now).refillRate ≠ 0 := Nat.pos_iff_ne_zero.mp hrate
  rw [TokenBucket.acquirePass, TokenBucket.acquireTake, if_neg (not_le.mpr h), if_neg hne]
  rfl

/-- The loop in terms of its first pass. -/
theorem acquire_succ (passes : Nat) :
    b.acquire bytes (passes + 1) late now =
      match b.acquirePass bytes now with
      | (.wait duration, b') =>
          b'.acquire bytes passes (fun k => late (k + 1)) (now + (duration + late 0))
      | (_, b') => some b' :=
  rfl

/-- Without a rate the first pass is the last. -/
theorem acquire_one_of_no_rate (hrate : b.refillRate = 0) :
    (b.acquire bytes 1 late now).isSome := by
  by_cases h : (bytes : ℚ) ≤ (b.refill now).tokens
  · rw [acquire_succ, acquirePass_granted h]
    rfl
  · have hsame : b.acquirePass bytes now = (.granted, b.refill now) := by
      rw [TokenBucket.acquirePass, TokenBucket.acquireTake, if_neg h,
        if_pos ((@refillRate_refill b now).trans hrate)]
    rw [acquire_succ, hsame]
    rfl

/-- A pass is the two critical sections of a caller, one after the other. -/
theorem acquirePass_eq_steps {l : Limiter} {caller : Nat} {wakeAt : ℚ}
    (hphase : l.callers caller = .refilling (.acquire bytes) wakeAt) (hwake : wakeAt ≤ now) :
    (l.run [.refill caller now, .take caller now]).bucket =
        (l.bucket.acquirePass bytes now).2 ∧
      (l.run [.refill caller now, .take caller now]).callers caller =
        Limiter.phaseAfter (.acquire bytes) now (l.bucket.acquirePass bytes now).1 := by
  constructor <;>
    simp [Limiter.run, Limiter.step, hphase, hwake, TokenBucket.acquirePass,
      BucketRequest.take]

/-- After a wait in full the bucket holds the bytes, if they fit at all. -/
theorem bytes_le_tokens_of_waited {past : ℚ} (hrate : 0 < b.refillRate)
    (hbytes : bytes ≤ b.capacity) (hpast : 0 ≤ past)
    (hlast : b.lastRefill = now) (hshort : b.tokens ≤ bytes) :
    (bytes : ℚ) ≤
      (b.refill (now + ((bytes - b.tokens) / b.refillRate + past))).tokens := by
  have hR : (0 : ℚ) < b.refillRate := Nat.cast_pos.mpr hrate
  have hneeded : b.refillRate * ((bytes - b.tokens) / b.refillRate) = bytes - b.tokens :=
    mul_div_cancel₀ _ hR.ne'
  have hwait : 0 ≤ (bytes - b.tokens) / b.refillRate :=
    div_nonneg (sub_nonneg.mpr hshort) hR.le
  have helapsed : b.elapsed (now + ((bytes - b.tokens) / b.refillRate + past)) =
      (bytes - b.tokens) / b.refillRate + past := by
    rw [elapsed_of_le (by rw [hlast]; linarith), hlast]
    ring
  refine le_min ?_ (Nat.cast_le.mpr hbytes)
  rw [helapsed, mul_add, hneeded]
  linarith [mul_nonneg hR.le hpast]

/-- A caller whose bytes fit into the bucket waits at most once. -/
theorem acquire_isSome_of_fits (hrate : 0 < b.refillRate) (hbytes : bytes ≤ b.capacity)
    (hlate : WaitsInFull late) : (b.acquire bytes 2 late now).isSome := by
  by_cases hnow : (bytes : ℚ) ≤ (b.refill now).tokens
  · rw [acquire_succ, acquirePass_granted hnow]
    rfl
  · have hshort := not_le.mp hnow
    have hfilled := @bytes_le_tokens_of_waited (b.refill now) bytes now (late 0) hrate
      hbytes (hlate 0) rfl hshort.le
    rw [acquire_succ, acquirePass_wait hrate hshort]
    change ((b.refill now).acquire bytes 1 _ _).isSome
    rw [refillRate_refill] at hfilled
    rw [acquire_succ, acquirePass_granted hfilled]
    rfl

/-- The loop runs on as long as the bytes do not fit into the bucket. -/
theorem acquire_eq_none (passes : Nat) :
    ∀ (late : Nat → ℚ) (now : ℚ) (b : TokenBucket), 0 < b.refillRate →
      b.capacity < bytes → b.acquire bytes passes late now = none := by
  induction passes with
  | zero =>
      intro late now b _ _
      rfl
  | succ passes ih =>
      intro late now b hrate hbytes
      have hshort : (b.refill now).tokens < bytes :=
        tokens_refill_le.trans_lt (Nat.cast_lt.mpr hbytes)
      rw [acquire_succ, acquirePass_wait hrate hshort]
      exact ih _ _ (b.refill now) hrate hbytes

theorem acquireReturns_of_rate (hrate : 0 < b.refillRate) (hlate : WaitsInFull late) :
    AcquireReturns bytes late now b ↔ bytes ≤ b.capacity := by
  constructor
  · rintro ⟨passes, hsome⟩
    by_contra hover
    rw [acquire_eq_none passes late now b hrate (not_le.mp hover)] at hsome
    cases hsome
  · intro hbytes
    exact ⟨2, acquire_isSome_of_fits hrate hbytes hlate⟩

end Passes

section Limits

/-- The buckets of the two directions, and of the disk where it is limited. -/
structure RateLimiter where
  upload : TokenBucket
  download : TokenBucket
  diskRead : Option TokenBucket
  diskWrite : Option TokenBucket

/-- The capacity that belongs to a rate. -/
def capacityFor (bytesPerSec : Nat) : Nat :=
  max bytesPerSec 1 * 2

/-- `set_rate` and `set_capacity`; the tokens stay until the next refill. -/
def TokenBucket.setRate (bytesPerSec : Nat) (b : TokenBucket) : TokenBucket :=
  { b with
    refillRate := bytesPerSec
    capacity := capacityFor bytesPerSec }

namespace RateLimiter

def new (uploadBytesPerSec downloadBytesPerSec : Nat) (now : ℚ) : RateLimiter where
  upload := TokenBucket.new (capacityFor uploadBytesPerSec) uploadBytesPerSec now
  download := TokenBucket.new (capacityFor downloadBytesPerSec) downloadBytesPerSec now
  diskRead := none
  diskWrite := none

def withDiskLimits (diskReadBytesPerSec diskWriteBytesPerSec : Nat) (now : ℚ)
    (l : RateLimiter) : RateLimiter :=
  { l with
    diskRead :=
      some (TokenBucket.new (capacityFor diskReadBytesPerSec) diskReadBytesPerSec now)
    diskWrite :=
      some (TokenBucket.new (capacityFor diskWriteBytesPerSec) diskWriteBytesPerSec now) }

def setUploadRate (bytesPerSec : Nat) (l : RateLimiter) : RateLimiter :=
  { l with upload := l.upload.setRate bytesPerSec }

def setDownloadRate (bytesPerSec : Nat) (l : RateLimiter) : RateLimiter :=
  { l with download := l.download.setRate bytesPerSec }

/-- The buckets that the limiter has. -/
def buckets (l : RateLimiter) : List TokenBucket :=
  l.upload :: l.download :: (l.diskRead.toList ++ l.diskWrite.toList)

end RateLimiter

/-- The limiters that come from the settings, in whatever order these are made. -/
inductive RateLimiter.Configured : RateLimiter → Prop
  | new (uploadBytesPerSec downloadBytesPerSec : Nat) (now : ℚ) :
      Configured (new uploadBytesPerSec downloadBytesPerSec now)
  | disk {l : RateLimiter} (diskReadBytesPerSec diskWriteBytesPerSec : Nat) (now : ℚ) :
      Configured l → Configured (l.withDiskLimits diskReadBytesPerSec diskWriteBytesPerSec now)
  | upload {l : RateLimiter} (bytesPerSec : Nat) :
      Configured l → Configured (l.setUploadRate bytesPerSec)
  | download {l : RateLimiter} (bytesPerSec : Nat) :
      Configured l → Configured (l.setDownloadRate bytesPerSec)

/-- Each bucket holds twice what its rate brings in a second. -/
def Proportioned (l : RateLimiter) : Prop :=
  ∀ b ∈ l.buckets, b.capacity = capacityFor b.refillRate

theorem proportioned_iff {l : RateLimiter} :
    Proportioned l ↔
      l.upload.capacity = capacityFor l.upload.refillRate ∧
        l.download.capacity = capacityFor l.download.refillRate ∧
        (∀ b ∈ l.diskRead, b.capacity = capacityFor b.refillRate) ∧
        ∀ b ∈ l.diskWrite, b.capacity = capacityFor b.refillRate := by
  simp only [Proportioned, RateLimiter.buckets, List.forall_mem_cons, List.forall_mem_append,
    Option.mem_toList, Option.mem_def]

theorem proportioned_new (uploadBytesPerSec downloadBytesPerSec : Nat) (now : ℚ) :
    Proportioned (RateLimiter.new uploadBytesPerSec downloadBytesPerSec now) :=
  proportioned_iff.mpr ⟨rfl, rfl, by simp [RateLimiter.new], by simp [RateLimiter.new]⟩

variable {l : RateLimiter}

theorem proportioned_withDiskLimits (h : Proportioned l)
    (diskReadBytesPerSec diskWriteBytesPerSec : Nat) (now : ℚ) :
    Proportioned (l.withDiskLimits diskReadBytesPerSec diskWriteBytesPerSec now) := by
  obtain ⟨hupload, hdownload, -, -⟩ := proportioned_iff.mp h
  refine proportioned_iff.mpr ⟨hupload, hdownload, ?_, ?_⟩
  · rintro b ⟨⟩
    rfl
  · rintro b ⟨⟩
    rfl

theorem proportioned_setUploadRate (h : Proportioned l) (bytesPerSec : Nat) :
    Proportioned (l.setUploadRate bytesPerSec) :=
  proportioned_iff.mpr ⟨rfl, (proportioned_iff.mp h).2⟩

theorem proportioned_setDownloadRate (h : Proportioned l) (bytesPerSec : Nat) :
    Proportioned (l.setDownloadRate bytesPerSec) := by
  obtain ⟨hupload, -, hdisk⟩ := proportioned_iff.mp h
  exact proportioned_iff.mpr ⟨hupload, rfl, hdisk⟩

theorem proportioned_of_configured (h : l.Configured) : Proportioned l := by
  induction h with
  | new uploadBytesPerSec downloadBytesPerSec now =>
      exact proportioned_new uploadBytesPerSec downloadBytesPerSec now
  | disk diskReadBytesPerSec diskWriteBytesPerSec now _ ih =>
      exact proportioned_withDiskLimits ih diskReadBytesPerSec diskWriteBytesPerSec now
  | upload bytesPerSec _ ih =>
      exact proportioned_setUploadRate ih bytesPerSec
  | download bytesPerSec _ ih =>
      exact proportioned_setDownloadRate ih bytesPerSec

/-- A caller of a rate limiter returns exactly when it asks for no more than the
bytes of two seconds, or the rate is zero. -/
theorem limiter_acquireReturns_iff {b : TokenBucket} {bytes : Nat} {now : ℚ}
    {late : Nat → ℚ} (hl : l.Configured) (hb : b ∈ l.buckets) (hlate : WaitsInFull late) :
    AcquireReturns bytes late now b ↔ b.refillRate = 0 ∨ bytes ≤ b.refillRate * 2 := by
  have h := proportioned_of_configured hl
  rcases Nat.eq_zero_or_pos b.refillRate with hrate | hrate
  · exact iff_of_true ⟨1, acquire_one_of_no_rate hrate⟩ (Or.inl hrate)
  · rw [acquireReturns_of_rate hrate hlate, h b hb, capacityFor,
      max_eq_left (Nat.one_le_iff_ne_zero.mpr hrate.ne')]
    simp [hrate.ne']

end Limits

/-- A caller returns exactly when its bytes fit into the bucket, whatever the
bucket holds and however late the caller wakes up. -/
theorem acquireReturns_iff (b : TokenBucket) (bytes : Nat) (now : ℚ) (late : Nat → ℚ)
    (hrate : 0 < b.refillRate) (hlate : WaitsInFull late) :
    AcquireReturns bytes late now b ↔ bytes ≤ b.capacity :=
  acquireReturns_of_rate hrate hlate

theorem acquireReturns_iff_ten :
    AcquireReturns 8 (fun _ => 1) 3 (TokenBucket.new 10 5 0) ↔ 8 ≤ 10 :=
  acquireReturns_iff (TokenBucket.new 10 5 0) 8 3 (fun _ => 1) (by decide)
    (fun _ => zero_le_one)

/-- A chunk of four MiB never gets through at a MiB a second. -/
theorem acquire_chunk_never_returns :
    ¬ AcquireReturns 4194304 (fun _ => 0) 0 (TokenBucket.new 2097152 1048576 0) := by
  rintro ⟨passes, hsome⟩
  rw [acquire_eq_none passes _ _ (TokenBucket.new 2097152 1048576 0) (by decide)
    (by decide)] at hsome
  cases hsome

end Agent
end HyperBackup
