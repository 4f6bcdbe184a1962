import HyperBackup.Lib.Runs
import Mathlib.Algebra.BigOperators.Group.List.Basic
import Mathlib.Algebra.Order.Field.Rat
import Mathlib.Data.Rat.Cast.Order
import Mathlib.Tactic.Linarith

/-!
# The rate limit of a token bucket

Callers share a bucket of tokens.  Each first refills the bucket, which reads
the clock, and then takes its tokens.  These are two critical sections, so
other callers come in between, and time passes.  Tokens and times are rational
numbers.

The level of a bucket at a time is what it would hold if it were refilled then.
As long as every grant finds the bucket not yet full, a grant lowers the level
by its bytes, and the bytes granted since some time plus the level are bounded.
A grant from a bucket that is full again takes tokens for which no place was
kept, and more can be granted than the limit allows.
-/

namespace HyperBackup
namespace Agent

open Lib.Runs

/-- The capacity and the rate are fixed; the rest is the state. -/
structure TokenBucket where
  capacity : Nat
  refillRate : Nat
  tokens : ℚ
  lastRefill : ℚ

/-- What a caller learns when it asks for tokens. -/
inductive Attempt
  | granted
  | refused
  | wait (duration : ℚ)

namespace TokenBucket

def new (capacity refillRate : Nat) (now : ℚ) : TokenBucket where
  capacity := capacity
  refillRate := refillRate
  tokens := capacity
  lastRefill := now

/-- The time since the last refill, zero if the clock went back. -/
def elapsed (b : TokenBucket) (now : ℚ) : ℚ :=
  max 0 (now - b.lastRefill)

def refill (now : ℚ) (b : TokenBucket) : TokenBucket :=
  { b with
    tokens := min (b.tokens + b.refillRate * b.elapsed now) b.capacity
    lastRefill := now }

/-- The bucket with fewer tokens. -/
def less (bytes : Nat) (b : TokenBucket) : TokenBucket :=
  { b with tokens := b.tokens - bytes }

/-- The second critical section of `try_acquire`. -/
def tryTake (bytes : Nat) (b : TokenBucket) : Attempt × TokenBucket :=
  if (bytes : ℚ) ≤ b.tokens then (.granted, b.less bytes) else (.refused, b)

/-- The second critical section of `acquire`.  Without a rate the caller goes
on as if it had got its tokens. -/
def acquireTake (bytes : Nat) (b : TokenBucket) : Attempt × TokenBucket :=
  if (bytes : ℚ) ≤ b.tokens then (.granted, b.less bytes)
  else if b.refillRate = 0 then (.granted, b)
  else (.wait ((bytes - b.tokens) / b.refillRate), b)

end TokenBucket

inductive BucketRequest
  | tryAcquire (bytes : Nat)
  | acquire (bytes : Nat)

/-- The bytes that are asked for. -/
def BucketRequest.bytes : BucketRequest → Nat
  | .tryAcquire bytes => bytes
  | .acquire bytes => bytes

def BucketRequest.take : BucketRequest → TokenBucket → Attempt × TokenBucket
  | .tryAcquire bytes => TokenBucket.tryTake bytes
  | .acquire bytes => TokenBucket.acquireTake bytes

/-- Where a caller stands. -/
inductive CallerPhase
  | idle
  | refilling (request : BucketRequest) (wakeAt : ℚ)
  | taking (request : BucketRequest)

/-- A caller makes a request, runs its first critical section, or runs its
second one. -/
inductive BucketEvent
  | call (caller : Nat) (request : BucketRequest) (now : ℚ)
  | refill (caller : Nat) (now : ℚ)
  | take (caller : Nat) (now : ℚ)

def BucketEvent.now : BucketEvent → ℚ
  | .call _ _ now => now
  | .refill _ now => now
  | .take _ now => now

/-- The bytes that a caller got, and when. -/
structure Grant where
  now : ℚ
  bytes : Nat

/-- The bucket and its callers. -/
structure Limiter where
  bucket : TokenBucket
  callers : Nat → CallerPhase

namespace Limiter

def new (capacity refillRate : Nat) (now : ℚ) : Limiter where
  bucket := TokenBucket.new capacity refillRate now
  callers := fun _ => .idle

/-- The phase after an attempt; an acquiring caller sleeps and tries again. -/
def phaseAfter (request : BucketRequest) (now : ℚ) : Attempt → CallerPhase
  | .granted => .idle
  | .refused => .idle
  | .wait duration => .refilling request (now + duration)

/-- An event; one that the caller is not ready for does nothing. -/
def step (l : Limiter) : BucketEvent → Limiter
  | .call caller request now =>
      match l.callers caller with
      | .idle =>
          { l with
            callers := Function.update l.callers caller (.refilling request now) }
      | _ => l
  | .refill caller now =>
      match l.callers caller with
      | .refilling request wakeAt =>
          if wakeAt ≤ now then
            { bucket := l.bucket.refill now
              callers := Function.update l.callers caller (.taking request) }
          else l
      | _ => l
  | .take caller now =>
      match l.callers caller with
      | .taking request =>
          { bucket := (request.take l.bucket).2
            callers := Function.update l.callers caller
              (phaseAfter request now (request.take l.bucket).1) }
      | _ => l

/-- What an event grants. -/
def grants (l : Limiter) : BucketEvent → List Grant
  | .take caller now =>
      match l.callers caller with
      | .taking request =>
          match (request.take l.bucket).1 with
          | .granted => [{ now := now, bytes := request.bytes }]
          | _ => []
      | _ => []
  | _ => []

def run (l : Limiter) (events : List BucketEvent) : Limiter :=
  events.foldl step l

/-- All that a run grants. -/
def granted : Limiter → List BucketEvent → List Grant
  | _, [] => []
  | l, event :: events => grants l event ++ granted (step l event) events

end Limiter

/-- The bytes granted between two times. -/
def bytesBetween (s e : ℚ) (grants : List Grant) : ℚ :=
  ((grants.filter fun g => s ≤ g.now ∧ g.now ≤ e).map fun g => (g.bytes : ℚ)).sum

/-- What the bucket promises about a run. -/
structure RateLaw (l : Limiter) (events : List BucketEvent) : Prop where
  window : ∀ s e : ℚ, s ≤ e →
    bytesBetween s e (l.granted events) ≤
      l.bucket.capacity + l.bucket.refillRate * (e - s)
  tokens : ∀ before, before <+: events →
    0 ≤ (l.run before).bucket.tokens ∧
      (l.run before).bucket.tokens ≤ l.bucket.capacity

/-- A caller that gets bytes finds a bucket that is not yet full again. -/
def Fitting (l : Limiter) (event : BucketEvent) : Prop :=
  ∀ g ∈ l.grants event, 0 < g.bytes →
    l.bucket.tokens + l.bucket.refillRate * (g.now - l.bucket.lastRefill) ≤
      l.bucket.capacity

/-- The times of the events do not decrease from the given one on. -/
def InOrder (start : ℚ) (events : List BucketEvent) : Prop :=
  (start :: events.map BucketEvent.now).Pairwise (· ≤ ·)

section Steps

variable {l : Limiter} {event : BucketEvent}

/-- What an event can do to the bucket. -/
inductive BucketEffect (l : Limiter) (event : BucketEvent) : Prop
  | none :
      (l.step event).bucket = l.bucket → l.grants event = [] →
      BucketEffect l event
  | refilled :
      (l.step event).bucket = l.bucket.refill event.now → l.grants event = [] →
      BucketEffect l event
  | granted (bytes : Nat) :
      (bytes : ℚ) ≤ l.bucket.tokens →
      (l.step event).bucket = l.bucket.less bytes →
      l.grants event = [{ now := event.now, bytes := bytes }] →
      BucketEffect l event

/-- An attempt gives the bytes, or leaves the bucket as it is. -/
theorem take_cases (request : BucketRequest) {b : TokenBucket} (hrate : 0 < b.refillRate) :
    ((request.bytes : ℚ) ≤ b.tokens ∧
        request.take b = (.granted, b.less request.bytes)) ∨
      (request.take b).1 ≠ .granted ∧ (request.take b).2 = b := by
  have hne : b.refillRate ≠ 0 := Nat.pos_iff_ne_zero.mp hrate
  cases request with
  | tryAcquire bytes =>
      by_cases h : (bytes : ℚ) ≤ b.tokens
      · exact Or.inl ⟨h, by simp [BucketRequest.take, TokenBucket.tryTake, BucketRequest.bytes, h]⟩
      · exact Or.inr (by simp [BucketRequest.take, TokenBucket.tryTake, h])
  | acquire bytes =>
      by_cases h : (bytes : ℚ) ≤ b.tokens
      · exact Or.inl
          ⟨h, by simp [BucketRequest.take, TokenBucket.acquireTake, BucketRequest.bytes, h]⟩
      · exact Or.inr (by simp [BucketRequest.take, TokenBucket.acquireTake, h, hne])

theorem bucketEffect (event : BucketEvent) (hrate : 0 < l.bucket.refillRate) :
    BucketEffect l event := by
  cases event with
  | call caller request now =>
      refine BucketEffect.none ?_ rfl
      cases hphase : l.callers caller <;> simp [Limiter.step, hphase]
  | refill caller now =>
      cases hphase : l.callers caller with
      | idle =>
          exact BucketEffect.none (by simp [Limiter.step, hphase]) rfl
      | refilling request wakeAt =>
          by_cases hwake : wakeAt ≤ now
          · refine BucketEffect.refilled ?_ rfl
            simp [Limiter.step, hphase, hwake, BucketEvent.now]
          · exact BucketEffect.none (by simp [Limiter.step, hphase, hwake]) rfl
      | taking request =>
          exact BucketEffect.none (by simp [Limiter.step, hphase]) rfl
  | take caller now =>
      cases hphase : l.callers caller with
      | idle =>
          exact BucketEffect.none (by simp [Limiter.step, hphase])
            (by simp [Limiter.grants, hphase])
      | refilling request wakeAt =>
          exact BucketEffect.none (by simp [Limiter.step, hphase])
            (by simp [Limiter.grants, hphase])
      | taking request =>
          rcases take_cases request hrate with ⟨hle, htake⟩ | ⟨hnot, hsame⟩
          · refine BucketEffect.granted request.bytes hle ?_ ?_
            · simp [Limiter.step, hphase, htake]
            · simp [Limiter.grants, hphase, htake, BucketEvent.now]
          · refine BucketEffect.none (by simp [Limiter.step, hphase, hsame]) ?_
            cases hattempt : (request.take l.bucket).1 with
            | granted =>
                exact absurd hattempt hnot
            | refused =>
                simp [Limiter.grants, hphase, hattempt]
            | wait duration =>
                simp [Limiter.grants, hphase, hattempt]

end Steps

section Levels

variable {b : TokenBucket} {l : Limiter} {event : BucketEvent} {τ t s e : ℚ}

/-- What the bucket would hold if it were refilled at a time. -/
def TokenBucket.level (b : TokenBucket) (t : ℚ) : ℚ :=
  min (b.tokens + b.refillRate * (t - b.lastRefill)) b.capacity

/-- The tokens fit into the bucket, and the last refill is over. -/
structure TokenBucket.Valid (b : TokenBucket) (τ : ℚ) : Prop where
  nonneg : 0 ≤ b.tokens
  le_capacity : b.tokens ≤ b.capacity
  lastRefill_le : b.lastRefill ≤ τ

theorem elapsed_of_le (h : b.lastRefill ≤ t) : b.elapsed t = t - b.lastRefill :=
  max_eq_right (sub_nonneg.mpr h)

/-- What is added for a time that has passed. -/
theorem rate_mul_nonneg (r : Nat) (h : τ ≤ t) : 0 ≤ (r : ℚ) * (t - τ) :=
  mul_nonneg (Nat.cast_nonneg r) (sub_nonneg.mpr h)

theorem valid_refill (h : b.Valid τ) (hτ : τ ≤ t) : (b.refill t).Valid t where
  nonneg := by
    have hadded := rate_mul_nonneg b.refillRate (h.lastRefill_le.trans hτ)
    have htokens := h.nonneg
    refine le_min ?_ (Nat.cast_nonneg _)
    rw [elapsed_of_le (h.lastRefill_le.trans hτ)]
    linarith
  le_capacity := min_le_right _ _
  lastRefill_le := le_refl t

theorem valid_less {bytes : Nat} (h : b.Valid τ) (hbytes : (bytes : ℚ) ≤ b.tokens)
    (hτ : τ ≤ t) : (b.less bytes).Valid t where
  nonneg := sub_nonneg.mpr hbytes
  le_capacity := by
    have hcapacity := h.le_capacity
    have hpos : (0 : ℚ) ≤ bytes := Nat.cast_nonneg bytes
    change b.tokens - bytes ≤ b.capacity
    linarith
  lastRefill_le := h.lastRefill_le.trans hτ

theorem valid_mono (h : b.Valid τ) (hτ : τ ≤ t) : b.Valid t where
  nonneg := h.nonneg
  le_capacity := h.le_capacity
  lastRefill_le := h.lastRefill_le.trans hτ

/-- The capacity and the rate do not change. -/
theorem params_step (l : Limiter) (event : BucketEvent) (hrate : 0 < l.bucket.refillRate) :
    (l.step event).bucket.capacity = l.bucket.capacity ∧
      (l.step event).bucket.refillRate = l.bucket.refillRate := by
  cases bucketEffect event hrate with
  | none hbucket _ =>
      rw [hbucket]
      exact ⟨rfl, rfl⟩
  | refilled hbucket _ =>
      rw [hbucket]
      exact ⟨rfl, rfl⟩
  | granted bytes _ hbucket _ =>
      rw [hbucket]
      exact ⟨rfl, rfl⟩

theorem valid_step (hrate : 0 < l.bucket.refillRate) (h : l.bucket.Valid τ)
    (hτ : τ ≤ event.now) : (l.step event).bucket.Valid event.now := by
  cases bucketEffect event hrate with
  | none hbucket _ =>
      rw [hbucket]
      exact valid_mono h hτ
  | refilled hbucket _ =>
      rw [hbucket]
      exact valid_refill h hτ
  | granted bytes hbytes hbucket _ =>
      rw [hbucket]
      exact valid_less h hbytes hτ

/-- A refill does not raise the level of later times. -/
theorem level_refill_le (h : b.lastRefill ≤ τ) (t : ℚ) :
    (b.refill τ).level t ≤ b.level t := by
  refine le_min ?_ (min_le_right _ _)
  refine (min_le_left _ _).trans ?_
  have hmin : (b.refill τ).tokens ≤ b.tokens + b.refillRate * b.elapsed τ :=
    min_le_left _ _
  rw [elapsed_of_le h] at hmin
  change (b.refill τ).tokens + b.refillRate * (t - τ) ≤ _
  linarith [mul_sub (b.refillRate : ℚ) t τ, mul_sub (b.refillRate : ℚ) τ b.lastRefill,
    mul_sub (b.refillRate : ℚ) t b.lastRefill]

theorem level_less_le (bytes : Nat) (t : ℚ) :
    (b.less bytes).level t ≤ b.level t := by
  refine le_min ?_ (min_le_right _ _)
  refine (min_le_left _ _).trans ?_
  have hpos : (0 : ℚ) ≤ bytes := Nat.cast_nonneg bytes
  change b.tokens - bytes + b.refillRate * (t - b.lastRefill) ≤ _
  linarith

theorem level_nonneg (h : b.Valid τ) (ht : τ ≤ t) : 0 ≤ b.level t := by
  have hadded := rate_mul_nonneg b.refillRate (h.lastRefill_le.trans ht)
  have htokens := h.nonneg
  exact le_min (by linarith) (Nat.cast_nonneg _)

/-- The bytes granted so far between `s` and `e` are bounded, and until `e` there
is place for as much as the level says. -/
structure BoundedSince (s e τ : ℚ) (b : TokenBucket) (got : ℚ) : Prop where
  total : got ≤ b.capacity + b.refillRate * (e - s)
  level : ∀ t, τ ≤ t → s ≤ t → t ≤ e →
    got + b.level t ≤ b.capacity + b.refillRate * (t - s)

theorem boundedSince_refill {got : ℚ} (h : BoundedSince s e τ b got)
    (hlast : b.lastRefill ≤ τ) (hτ : τ ≤ t) : BoundedSince s e t (b.refill t) got where
  total := h.total
  level := by
    intro u hu hsu hue
    have hlevel := level_refill_le (hlast.trans hτ) u
    have hbound := h.level u (hτ.trans hu) hsu hue
    change got + (b.refill t).level u ≤ b.capacity + b.refillRate * (u - s)
    linarith

/-- A grant that finds the bucket not full takes its bytes from the level. -/
theorem level_less_of_fits {bytes : Nat}
    (hfits : b.tokens + b.refillRate * (τ - b.lastRefill) ≤ b.capacity) (t : ℚ) :
    bytes + (b.less bytes).level t ≤ b.level τ + b.refillRate * (t - τ) := by
  have hlevel : b.level τ = b.tokens + b.refillRate * (τ - b.lastRefill) :=
    min_eq_left hfits
  have hless : (b.less bytes).level t ≤
      b.tokens - bytes + b.refillRate * (t - b.lastRefill) :=
    min_le_left _ _
  rw [hlevel]
  linarith [mul_sub (b.refillRate : ℚ) t τ, mul_sub (b.refillRate : ℚ) τ b.lastRefill,
    mul_sub (b.refillRate : ℚ) t b.lastRefill]

/-- A grant outside the time between `s` and `e`. -/
theorem boundedSince_less {got : ℚ} (bytes : Nat) (h : BoundedSince s e τ b got)
    (hτ : τ ≤ t) : BoundedSince s e t (b.less bytes) got where
  total := h.total
  level := by
    intro u hu hsu hue
    have hlevel := level_less_le (b := b) bytes u
    have hbound := h.level u (hτ.trans hu) hsu hue
    change got + (b.less bytes).level u ≤ b.capacity + b.refillRate * (u - s)
    linarith

/-- A grant between `s` and `e` that finds the bucket not full. -/
theorem boundedSince_grant {got : ℚ} {bytes : Nat} (h : BoundedSince s e τ b got)
    (hvalid : (b.less bytes).Valid t) (hτ : τ ≤ t) (hst : s ≤ t) (hte : t ≤ e)
    (hfits : b.tokens + b.refillRate * (t - b.lastRefill) ≤ b.capacity) :
    BoundedSince s e t (b.less bytes) (got + bytes) := by
  have hlevel : ∀ u, t ≤ u → s ≤ u → u ≤ e →
      got + bytes + (b.less bytes).level u ≤ b.capacity + b.refillRate * (u - s) := by
    intro u _ _ _
    have hless := @level_less_of_fits b t bytes hfits u
    have hbound := h.level t hτ hst hte
    linarith [mul_sub (b.refillRate : ℚ) u t, mul_sub (b.refillRate : ℚ) t s,
      mul_sub (b.refillRate : ℚ) u s]
  refine ⟨?_, hlevel⟩
  have hend := hlevel e hte (hst.trans hte) (le_refl e)
  have hnonneg := level_nonneg hvalid hte
  change got + bytes ≤ b.capacity + b.refillRate * (e - s)
  linarith

end Levels

section Windows

variable {b : TokenBucket} {l : Limiter} {event : BucketEvent} {τ s e : ℚ}

@[simp] theorem bytesBetween_nil : bytesBetween s e [] = 0 :=
  rfl

theorem bytesBetween_append (grants grants' : List Grant) :
    bytesBetween s e (grants ++ grants') =
      bytesBetween s e grants + bytesBetween s e grants' := by
  simp [bytesBetween]

theorem bytesBetween_singleton (g : Grant) :
    bytesBetween s e [g] = if s ≤ g.now ∧ g.now ≤ e then (g.bytes : ℚ) else 0 := by
  by_cases h : s ≤ g.now ∧ g.now ≤ e <;> simp [bytesBetween, h]

theorem inOrder_cons {events : List BucketEvent} :
    InOrder τ (event :: events) → τ ≤ event.now ∧ InOrder event.now events := by
  intro h
  rw [InOrder, List.map_cons, List.pairwise_cons] at h
  exact ⟨h.1 _ List.mem_cons_self, h.2⟩

theorem boundedSince_step {got : ℚ} (hrate : 0 < l.bucket.refillRate)
    (hvalid : l.bucket.Valid τ) (hτ : τ ≤ event.now) (hfits : Fitting l event)
    (h : BoundedSince s e τ l.bucket got) :
    BoundedSince s e event.now (l.step event).bucket
      (got + bytesBetween s e (l.grants event)) := by
  have hafter := valid_step hrate hvalid hτ
  cases bucketEffect event hrate with
  | none hbucket hgrants =>
      rw [hbucket, hgrants, bytesBetween_nil, add_zero]
      exact ⟨h.total, fun t ht => h.level t (hτ.trans ht)⟩
  | refilled hbucket hgrants =>
      rw [hbucket, hgrants, bytesBetween_nil, add_zero]
      exact boundedSince_refill h hvalid.lastRefill_le hτ
  | granted bytes _ hbucket hgrants =>
      rw [hbucket] at hafter
      rw [hbucket, hgrants, bytesBetween_singleton]
      by_cases hwindow : s ≤ event.now ∧ event.now ≤ e
      · rw [if_pos hwindow]
        by_cases hbytes : 0 < bytes
        · have hgrant : (⟨event.now, bytes⟩ : Grant) ∈ l.grants event := by
            rw [hgrants]
            exact List.mem_singleton.mpr rfl
          have hroom := hfits ⟨event.now, bytes⟩ hgrant hbytes
          exact boundedSince_grant h hafter hτ hwindow.1 hwindow.2 hroom
        · obtain rfl := Nat.eq_zero_of_not_pos hbytes
          rw [Nat.cast_zero, add_zero]
          exact boundedSince_less 0 h hτ
      · rw [if_neg hwindow, add_zero]
        exact boundedSince_less bytes h hτ

/-- The bound of a window over the rest of a run. -/
theorem bytesBetween_granted_le (events : List BucketEvent) :
    ∀ (l : Limiter) (τ got : ℚ), 0 < l.bucket.refillRate → l.bucket.Valid τ →
      InOrder τ events → Always Limiter.step Fitting l events →
      BoundedSince s e τ l.bucket got →
      got + bytesBetween s e (l.granted events) ≤
        l.bucket.capacity + l.bucket.refillRate * (e - s) := by
  induction events with
  | nil =>
      intro l τ got _ _ _ _ h
      rw [Limiter.granted, bytesBetween_nil, add_zero]
      exact h.total
  | cons event events ih =>
      rintro l τ got hrate hvalid horder ⟨hfits, hrest⟩ h
      obtain ⟨hτ, horder'⟩ := inOrder_cons horder
      obtain ⟨hcapacity, hsame⟩ := params_step l event hrate
      have hbound := ih (l.step event) event.now
        (got + bytesBetween s e (l.grants event)) (by rw [hsame]; exact hrate)
        (valid_step hrate hvalid hτ) horder' hrest
        (boundedSince_step hrate hvalid hτ hfits h)
      rw [hcapacity, hsame] at hbound
      rw [Limiter.granted, bytesBetween_append, ← add_assoc]
      exact hbound

/-- The bucket stays as it should be, whatever is granted. -/
theorem valid_run (events later : List BucketEvent) :
    ∀ (l : Limiter) (τ : ℚ), 0 < l.bucket.refillRate → l.bucket.Valid τ →
      InOrder τ (events ++ later) →
      ∃ τ', (l.run events).bucket.Valid τ' ∧ InOrder τ' later ∧
        (l.run events).bucket.capacity = l.bucket.capacity ∧
        (l.run events).bucket.refillRate = l.bucket.refillRate := by
  induction events with
  | nil =>
      intro l τ _ hvalid horder
      exact ⟨τ, hvalid, horder, rfl, rfl⟩
  | cons event events ih =>
      intro l τ hrate hvalid horder
      obtain ⟨hτ, horder'⟩ := inOrder_cons horder
      obtain ⟨hcapacity, hsame⟩ := params_step l event hrate
      have hrest := ih (l.step event) event.now (by rw [hsame]; exact hrate)
        (valid_step hrate hvalid hτ) horder'
      rw [hcapacity, hsame] at hrest
      exact hrest

theorem valid_new (capacity refillRate : Nat) (now : ℚ) :
    (TokenBucket.new capacity refillRate now).Valid now where
  nonneg := Nat.cast_nonneg capacity
  le_capacity := le_refl _
  lastRefill_le := le_refl now

/-- No window has been used when the bucket is made. -/
theorem boundedSince_new (capacity refillRate : Nat) (now : ℚ) (hse : s ≤ e) :
    BoundedSince s e now (TokenBucket.new capacity refillRate now) 0 where
  total := by
    have hcapacity : (0 : ℚ) ≤ capacity := Nat.cast_nonneg capacity
    have hadded := rate_mul_nonneg refillRate hse
    change 0 ≤ (capacity : ℚ) + refillRate * (e - s)
    linarith
  level := by
    intro t _ hst _
    have hlevel : (TokenBucket.new capacity refillRate now).level t ≤ capacity :=
      min_le_right _ _
    have hadded := rate_mul_nonneg refillRate hst
    change 0 + (TokenBucket.new capacity refillRate now).level t ≤
      (capacity : ℚ) + refillRate * (t - s)
    linarith

/-- The rate law holds over every run in which no bytes are granted from a
bucket that is full again. -/
theorem rateLaw_of_fitting (capacity refillRate : Nat) (start : ℚ)
    (events : List BucketEvent) (hrate : 0 < refillRate)
    (horder : InOrder start events)
    (hfits : ∀ before event later, events = before ++ event :: later →
      Fitting ((Limiter.new capacity refillRate start).run before) event) :
    RateLaw (Limiter.new capacity refillRate start) events where
  window := by
    intro s e hse
    have hbound := bytesBetween_granted_le events
      (Limiter.new capacity refillRate start) start 0 hrate
      (valid_new capacity refillRate start) horder (always_iff_split.mpr hfits)
      (boundedSince_new capacity refillRate start hse)
    rwa [zero_add] at hbound
  tokens := by
    rintro before ⟨later, rfl⟩
    obtain ⟨τ, hvalid, -, hcapacity, -⟩ := valid_run before later
      (Limiter.new capacity refillRate start) start hrate
      (valid_new capacity refillRate start) horder
    rw [← hcapacity]
    exact ⟨hvalid.nonneg, hvalid.le_capacity⟩

/-- What has been granted counts, whenever it was. -/
theorem bytesBetween_nonneg (grants : List Grant) : 0 ≤ bytesBetween s e grants := by
  induction grants with
  | nil =>
      rfl
  | cons g grants ih =>
      have hfirst : 0 ≤ bytesBetween s e [g] := by
        rw [bytesBetween_singleton]
        split
        · exact Nat.cast_nonneg g.bytes
        · exact le_refl 0
      have happend := bytesBetween_append (s := s) (e := e) [g] grants
      rw [List.singleton_append] at happend
      rw [happend]
      exact add_nonneg hfirst ih

theorem granted_append (events later : List BucketEvent) :
    ∀ l : Limiter, l.granted (events ++ later) =
      l.granted events ++ (l.run events).granted later := by
  induction events with
  | nil =>
      intro l
      rfl
  | cons event events ih =>
      intro l
      rw [List.cons_append, Limiter.granted, Limiter.granted, ih, List.append_assoc]
      rfl

/-- What an idle caller gets that takes its tokens at once. -/
theorem granted_atOnce {caller bytes : Nat} {now : ℚ}
    (hidle : l.callers caller = .idle)
    (hbytes : (bytes : ℚ) ≤ (l.bucket.refill now).tokens) :
    l.granted [.call caller (.tryAcquire bytes) now, .refill caller now,
      .take caller now] = [⟨now, bytes⟩] := by
  simp [Limiter.granted, Limiter.grants, Limiter.step, hidle, hbytes,
    BucketRequest.take, TokenBucket.tryTake, BucketRequest.bytes]

/-- A bucket that was full again when bytes were taken soon holds more than the
place that is left. -/
theorem exists_refill {bytes : Nat} (hvalid : b.Valid τ) (hrate : 0 < b.refillRate)
    (hpos : 0 < bytes)
    (hover : (b.capacity : ℚ) < b.tokens + b.refillRate * (τ - b.lastRefill)) :
    ∃ now, τ ≤ now ∧ b.refillRate * (now - τ) < (1 : ℚ) ∧
      (b.capacity : ℚ) + 1 - bytes ≤ ((b.less bytes).refill now).tokens := by
  have hR : (0 : ℚ) < b.refillRate := Nat.cast_pos.mpr hrate
  have hn : (1 : ℚ) ≤ bytes := Nat.one_le_cast.mpr hpos
  let full := b.lastRefill + (b.capacity + 1 - b.tokens) / b.refillRate
  have hfull : b.refillRate * (full - b.lastRefill) = b.capacity + 1 - b.tokens := by
    change b.refillRate * (b.lastRefill + (b.capacity + 1 - b.tokens) / b.refillRate -
      b.lastRefill) = b.capacity + 1 - b.tokens
    rw [add_sub_cancel_left, mul_div_cancel₀ _ hR.ne']
  have hlast : (b.less bytes).lastRefill ≤ max τ full :=
    hvalid.lastRefill_le.trans (le_max_left τ full)
  refine ⟨max τ full, le_max_left _ _, ?_, ?_⟩
  · rcases max_choice τ full with h | h
    · rw [h, sub_self, mul_zero]
      exact zero_lt_one
    · rw [h]
      linarith [mul_sub (b.refillRate : ℚ) full τ,
        mul_sub (b.refillRate : ℚ) full b.lastRefill,
        mul_sub (b.refillRate : ℚ) τ b.lastRefill]
  · have hgrown := mul_le_mul_of_nonneg_left
      (sub_le_sub_right (le_max_right τ full) b.lastRefill) hR.le
    rw [hfull] at hgrown
    refine le_min ?_ ?_
    · rw [elapsed_of_le hlast]
      change (b.capacity : ℚ) + 1 - bytes ≤
        b.tokens - bytes + b.refillRate * (max τ full - b.lastRefill)
      linarith
    · change (b.capacity : ℚ) + 1 - bytes ≤ b.capacity
      linarith

/-- If bytes are granted from a bucket that is full again, the next caller can
break the rate law. -/
theorem exists_not_rateLaw {capacity refillRate caller : Nat} {start : ℚ}
    {events : List BucketEvent} (hrate : 0 < refillRate)
    (horder : InOrder start (events ++ [event]))
    (hidle : ((Limiter.new capacity refillRate start).run
      (events ++ [event])).callers caller = .idle)
    (hnot : ¬ Fitting ((Limiter.new capacity refillRate start).run events) event) :
    ∃ bytes now, event.now ≤ now ∧
      ¬ RateLaw (Limiter.new capacity refillRate start) (events ++ [event] ++
        [.call caller (.tryAcquire bytes) now, .refill caller now,
          .take caller now]) := by
  obtain ⟨τ, hvalid, horder', hcapacity, hsame⟩ := valid_run events [event]
    (Limiter.new capacity refillRate start) start hrate
    (valid_new capacity refillRate start) horder
  have hrun : (Limiter.new capacity refillRate start).run (events ++ [event]) =
      ((Limiter.new capacity refillRate start).run events).step event :=
    List.foldl_concat _ _ _ _
  have hevents := granted_append events [event] (Limiter.new capacity refillRate start)
  have hall := granted_append (events ++ [event])
  rw [hrun] at hidle
  change _ = capacity at hcapacity
  change _ = refillRate at hsame
  generalize (Limiter.new capacity refillRate start).run events = l at *
  have hrate' : 0 < l.bucket.refillRate := hsame ▸ hrate
  obtain ⟨hτ, -⟩ := inOrder_cons horder'
  cases bucketEffect event hrate' with
  | none _ hgrants =>
      exact absurd (by simp [Fitting, hgrants]) hnot
  | refilled _ hgrants =>
      exact absurd (by simp [Fitting, hgrants]) hnot
  | granted bytes hbytes hbucket hgrants =>
      have hover : 0 < bytes ∧ (l.bucket.capacity : ℚ) <
          l.bucket.tokens + l.bucket.refillRate * (event.now - l.bucket.lastRefill) := by
        simpa [Fitting, hgrants] using hnot
      obtain ⟨now, hnow, hsmall, htokens⟩ :=
        exists_refill (valid_mono hvalid hτ) hrate' hover.1 hover.2
      have hle : bytes ≤ l.bucket.capacity :=
        Nat.cast_le.mp (hbytes.trans hvalid.le_capacity)
      have hmore : ((l.bucket.capacity + 1 - bytes : Nat) : ℚ) =
          (l.bucket.capacity : ℚ) + 1 - bytes := by
        rw [Nat.cast_sub (Nat.le_succ_of_le hle), Nat.cast_succ]
      refine ⟨l.bucket.capacity + 1 - bytes, now, hnow, fun hlaw => ?_⟩
      have hwindow := hlaw.window event.now now hnow
      have henough : ((l.bucket.capacity + 1 - bytes : Nat) : ℚ) ≤
          ((l.step event).bucket.refill now).tokens := by
        rw [hbucket, hmore]
        exact htokens
      have hlater := granted_atOnce hidle henough
      have hearlier := @bytesBetween_nonneg event.now now
        ((Limiter.new capacity refillRate start).granted events)
      rw [hall, hrun, hlater, hevents, Limiter.granted, hgrants, Limiter.granted,
        List.append_nil, bytesBetween_append, bytesBetween_append,
        bytesBetween_singleton, bytesBetween_singleton, if_pos ⟨le_refl _, hnow⟩,
        if_pos ⟨hnow, le_refl _⟩, hmore] at hwindow
      rw [hsame, hcapacity] at *
      change _ ≤ (capacity : ℚ) + refillRate * (now - event.now) at hwindow
      linarith

/-- The first caller is held up between its two critical sections. -/
def heldUp : List BucketEvent := [
  .call 1 (.tryAcquire 2) 0,
  .refill 1 0,
  .take 1 2,
  .call 2 (.tryAcquire 2) 2,
  .refill 2 2,
  .take 2 2]

/-- The first caller takes its tokens at once. -/
def atOnce : List BucketEvent := [
  .call 1 (.tryAcquire 2) 0,
  .refill 1 0,
  .take 1 0,
  .call 2 (.tryAcquire 2) 2,
  .refill 2 2,
  .take 2 2]

theorem rateLaw_atOnce :
    (Limiter.new 2 1 0).granted atOnce = [⟨0, 2⟩, ⟨2, 2⟩] ∧
      RateLaw (Limiter.new 2 1 0) atOnce := by
  have hfits : Always Limiter.step Fitting (Limiter.new 2 1 0) atOnce := by
    norm_num [atOnce, Always, Fitting, Limiter.grants, Limiter.step, Limiter.new,
      TokenBucket.new, TokenBucket.refill, TokenBucket.elapsed, TokenBucket.tryTake,
      TokenBucket.less, BucketRequest.take, BucketRequest.bytes, Function.update,
      Limiter.phaseAfter]
  refine ⟨?_, rateLaw_of_fitting 2 1 0 atOnce (by decide) ?_
    (always_iff_split.mp hfits)⟩
  · norm_num [atOnce, Limiter.granted, Limiter.grants, Limiter.step, Limiter.new,
      TokenBucket.new, TokenBucket.refill, TokenBucket.elapsed, TokenBucket.tryTake,
      TokenBucket.less, BucketRequest.take, BucketRequest.bytes, Function.update,
      Limiter.phaseAfter]
  · norm_num [InOrder, atOnce, BucketEvent.now]

theorem granted_heldUp :
    (Limiter.new 2 1 0).granted heldUp = [⟨2, 2⟩, ⟨2, 2⟩] := by
  norm_num [heldUp, Limiter.granted, Limiter.grants, Limiter.step, Limiter.new,
    TokenBucket.new, TokenBucket.refill, TokenBucket.elapsed, TokenBucket.tryTake,
    TokenBucket.less, BucketRequest.take, BucketRequest.bytes, Function.update,
    Limiter.phaseAfter]

theorem not_rateLaw_heldUp : ¬ RateLaw (Limiter.new 2 1 0) heldUp := by
  intro h
  have hwindow := h.window 2 2 (le_refl 2)
  rw [granted_heldUp] at hwindow
  norm_num [bytesBetween, Limiter.new, TokenBucket.new] at hwindow

end Windows

end Agent
end HyperBackup
