import HyperBackup.Lib.HashMap
import HyperBackup.Lib.Schedule

/-!
# The memory budget of the backups

A backup acquires the bytes of a chunk from the budget before it keeps the chunk
in memory, and gives them back when the guard is dropped.  A call of `acquire`
reads the number of used bytes, and if its own fit, tries to exchange that
number for the sum.  If they do not fit it waits to be notified and starts
again.  A guard that is dropped first subtracts its bytes and then notifies one
waiter.  All of these are separate steps of any number of tasks.

A notification without a waiter is kept as a permit, but only one.  The main
results say that the bytes in use are those of the guards and stay within the
limit, and that every call comes to its guard, whatever the order of the steps,
exactly if no call asks for more than the limit.
-/

namespace HyperBackup
namespace Agent
namespace MemoryBudget

open Lib Lib.Schedule

abbrev TaskId : Type := Nat

/-- How far a task has come: it is about to read the used bytes, has read them
and will try the exchange, has seen that its bytes do not fit, is queued, is
woken up, holds its guard, or has subtracted its bytes. -/
inductive Phase
  | loading (bytes : UInt64)
  | trying (bytes current : UInt64)
  | waiting (bytes : UInt64)
  | parked (bytes : UInt64)
  | notified (bytes : UInt64)
  | holding (bytes : UInt64)
  | releasing

/-- The budget, the tasks that use it, and its waiters, the oldest first. -/
structure Budget where
  limit : UInt64
  used : UInt64
  tasks : HashMap TaskId Phase
  waiters : List TaskId
  permit : Bool

def new (limit : UInt64) : Budget where
  limit := limit
  used := 0
  tasks := ∅
  waiters := []
  permit := false

/-- The steps of the tasks.  A future can be dropped while it waits. -/
inductive Action
  | acquire (t : TaskId) (bytes : UInt64)
  | load (t : TaskId)
  | exchange (t : TaskId)
  | poll (t : TaskId)
  | wake (t : TaskId)
  | cancel (t : TaskId)
  | drop (t : TaskId)
  | notify (t : TaskId)

namespace Budget

def setPhase (t : TaskId) (phase : Phase) (b : Budget) : Budget :=
  { b with tasks := b.tasks.insert t phase }

def remove (t : TaskId) (b : Budget) : Budget :=
  { b with tasks := b.tasks.erase t }

/-- A new call; no bytes need no budget. -/
def acquire (t : TaskId) (bytes : UInt64) (b : Budget) : Budget :=
  match b.tasks.lookup t with
  | some _ => b
  | none => b.setPhase t (if bytes = 0 then .holding 0 else .loading bytes)

def load (t : TaskId) (b : Budget) : Budget :=
  match b.tasks.lookup t with
  | some (.loading bytes) =>
      if b.used + bytes ≤ b.limit then b.setPhase t (.trying bytes b.used)
      else b.setPhase t (.waiting bytes)
  | _ => b

/-- The exchange fails if the used bytes are no longer those that were read. -/
def exchange (t : TaskId) (b : Budget) : Budget :=
  match b.tasks.lookup t with
  | some (.trying bytes current) =>
      if b.used = current then
        { b with used := current + bytes }.setPhase t (.holding bytes)
      else b.setPhase t (.loading bytes)
  | _ => b

/-- A task that waits takes the permit, or joins the queue. -/
def poll (t : TaskId) (b : Budget) : Budget :=
  match b.tasks.lookup t with
  | some (.waiting bytes) =>
      if b.permit then { b with permit := false }.setPhase t (.loading bytes)
      else { b with waiters := b.waiters ++ [t] }.setPhase t (.parked bytes)
  | _ => b

def wake (t : TaskId) (b : Budget) : Budget :=
  match b.tasks.lookup t with
  | some (.notified bytes) => b.setPhase t (.loading bytes)
  | _ => b

/-- The oldest waiter is notified; without one a permit is kept. -/
def notifyOne (b : Budget) : Budget :=
  match b.waiters with
  | [] => { b with permit := true }
  | t :: waiters =>
      match b.tasks.lookup t with
      | some (.parked bytes) =>
          { b with waiters := waiters }.setPhase t (.notified bytes)
      | _ => { b with waiters := waiters }

/-- A future that is dropped hands the notification on that it has not used. -/
def cancel (t : TaskId) (b : Budget) : Budget :=
  match b.tasks.lookup t with
  | some (.parked _) => { b with waiters := b.waiters.filter (· ≠ t) }.remove t
  | some (.notified _) => (b.remove t).notifyOne
  | _ => b

def drop (t : TaskId) (b : Budget) : Budget :=
  match b.tasks.lookup t with
  | some (.holding bytes) =>
      if bytes = 0 then b.remove t
      else { b with used := b.used - bytes }.setPhase t .releasing
  | _ => b

def notify (t : TaskId) (b : Budget) : Budget :=
  match b.tasks.lookup t with
  | some .releasing => (b.remove t).notifyOne
  | _ => b

def step (b : Budget) : Action → Budget
  | .acquire t bytes => b.acquire t bytes
  | .load t => b.load t
  | .exchange t => b.exchange t
  | .poll t => b.poll t
  | .wake t => b.wake t
  | .cancel t => b.cancel t
  | .drop t => b.drop t
  | .notify t => b.notify t

end Budget

def run (limit : UInt64) (actions : List Action) : Budget :=
  actions.foldl Budget.step (new limit)

/-- The bytes of a guard. -/
def Phase.held : Phase → Nat
  | .holding bytes => bytes.toNat
  | _ => 0

/-- The bytes of all guards together. -/
def Budget.held (b : Budget) : Nat :=
  HashMap.total Phase.held b.tasks

/-- The calls of a run ask for these numbers of bytes. -/
def AsksFor (sizes : Set UInt64) (actions : List Action) : Prop :=
  ∀ t bytes, .acquire t bytes ∈ actions → bytes ∈ sizes

/-- The sums that are formed stay below the word size. -/
def SumsFit (limit : UInt64) (sizes : Set UInt64) : Prop :=
  ∀ bytes ∈ sizes, bytes.toNat + limit.toNat < 2 ^ 64

/-- A step that a task takes on its way to its guard and to its end. -/
def Action.Ongoing : Action → Prop
  | .acquire _ _ | .cancel _ => False
  | _ => True

/-- With no call more, and none given up, all calls come to their guards and all
guards are dropped, whatever the order of the steps. -/
def Budget.Finishes (b : Budget) : Prop :=
  Reaches Budget.step Action.Ongoing (fun b => b.tasks.entries = []) b

@[simp] theorem Budget.lookup_setPhase (b : Budget) (t : TaskId) (phase : Phase) :
    (b.setPhase t phase).tasks.lookup t = some phase :=
  AList.lookup_insert _

theorem Budget.lookup_setPhase_of_ne (b : Budget) {t s : TaskId} (h : s ≠ t)
    (phase : Phase) : (b.setPhase t phase).tasks.lookup s = b.tasks.lookup s :=
  AList.lookup_insert_ne h

section Effects

/-- What a step does that changes the budget. -/
inductive Effect (b : Budget) : Action → Budget → Prop
  | called {t : TaskId} {bytes : UInt64} (hnew : b.tasks.lookup t = none)
      (hbytes : bytes ≠ 0) :
      Effect b (.acquire t bytes) (b.setPhase t (.loading bytes))
  | empty {t : TaskId} (hnew : b.tasks.lookup t = none) :
      Effect b (.acquire t 0) (b.setPhase t (.holding 0))
  | fits {t : TaskId} {bytes : UInt64} (ht : b.tasks.lookup t = some (.loading bytes))
      (hfits : b.used + bytes ≤ b.limit) :
      Effect b (.load t) (b.setPhase t (.trying bytes b.used))
  | full {t : TaskId} {bytes : UInt64} (ht : b.tasks.lookup t = some (.loading bytes))
      (hfull : ¬ b.used + bytes ≤ b.limit) :
      Effect b (.load t) (b.setPhase t (.waiting bytes))
  | exchanged {t : TaskId} {bytes : UInt64}
      (ht : b.tasks.lookup t = some (.trying bytes b.used)) :
      Effect b (.exchange t) ({ b with used := b.used + bytes }.setPhase t (.holding bytes))
  | overtaken {t : TaskId} {bytes current : UInt64}
      (ht : b.tasks.lookup t = some (.trying bytes current)) (hne : b.used ≠ current) :
      Effect b (.exchange t) (b.setPhase t (.loading bytes))
  | permitted {t : TaskId} {bytes : UInt64} (ht : b.tasks.lookup t = some (.waiting bytes))
      (hpermit : b.permit = true) :
      Effect b (.poll t) ({ b with permit := false }.setPhase t (.loading bytes))
  | queued {t : TaskId} {bytes : UInt64} (ht : b.tasks.lookup t = some (.waiting bytes))
      (hpermit : b.permit = false) :
      Effect b (.poll t) ({ b with waiters := b.waiters ++ [t] }.setPhase t (.parked bytes))
  | woken {t : TaskId} {bytes : UInt64} (ht : b.tasks.lookup t = some (.notified bytes)) :
      Effect b (.wake t) (b.setPhase t (.loading bytes))
  | left {t : TaskId} {bytes : UInt64} (ht : b.tasks.lookup t = some (.parked bytes)) :
      Effect b (.cancel t) ({ b with waiters := b.waiters.filter (· ≠ t) }.remove t)
  | handedOn {t : TaskId} {bytes : UInt64} (ht : b.tasks.lookup t = some (.notified bytes)) :
      Effect b (.cancel t) (b.remove t).notifyOne
  | freed {t : TaskId} (ht : b.tasks.lookup t = some (.holding 0)) :
      Effect b (.drop t) (b.remove t)
  | dropped {t : TaskId} {bytes : UInt64} (ht : b.tasks.lookup t = some (.holding bytes))
      (hbytes : bytes ≠ 0) :
      Effect b (.drop t) ({ b with used := b.used - bytes }.setPhase t .releasing)
  | released {t : TaskId} (ht : b.tasks.lookup t = some .releasing) :
      Effect b (.notify t) (b.remove t).notifyOne

theorem effect_of_step_ne {b : Budget} {a : Action} (h : b.step a ≠ b) :
    Effect b a (b.step a) := by
  cases a with
  | acquire t bytes =>
      simp only [Budget.step, Budget.acquire] at h ⊢
      split at h
      · exact absurd rfl h
      · next ht =>
          by_cases hbytes : bytes = 0
          · subst hbytes
            exact .empty ht
          · rw [if_neg hbytes]
            exact .called ht hbytes
  | load t =>
      simp only [Budget.step, Budget.load] at h ⊢
      split at h
      · next ht =>
          split
          · next hfits => exact .fits ht hfits
          · next hfull => exact .full ht hfull
      · exact absurd rfl h
  | exchange t =>
      simp only [Budget.step, Budget.exchange] at h ⊢
      split at h
      · next ht =>
          split
          · next hcurrent =>
              subst hcurrent
              exact .exchanged ht
          · next hne => exact .overtaken ht hne
      · exact absurd rfl h
  | poll t =>
      simp only [Budget.step, Budget.poll] at h ⊢
      split at h
      · next ht =>
          split
          · next hpermit => exact .permitted ht hpermit
          · next hpermit => exact .queued ht (Bool.not_eq_true _ ▸ hpermit)
      · exact absurd rfl h
  | wake t =>
      simp only [Budget.step, Budget.wake] at h ⊢
      split at h
      · next ht => exact .woken ht
      · exact absurd rfl h
  | cancel t =>
      simp only [Budget.step, Budget.cancel] at h ⊢
      split at h
      · next ht => exact .left ht
      · next ht => exact .handedOn ht
      · exact absurd rfl h
  | drop t =>
      simp only [Budget.step, Budget.drop] at h ⊢
      split at h
      · next ht =>
          split
          · next hbytes =>
              subst hbytes
              exact .freed ht
          · next hbytes => exact .dropped ht hbytes
      · exact absurd rfl h
  | notify t =>
      simp only [Budget.step, Budget.notify] at h ⊢
      split at h
      · next ht => exact .released ht
      · exact absurd rfl h

/-- What holds and is kept by every effect holds after every step. -/
theorem inv_step {I : Budget → Prop} {b : Budget} {a : Action} (h : I b)
    (heffect : ∀ b', Effect b a b' → I b') : I (b.step a) := by
  by_cases hstep : b.step a = b
  · rw [hstep]
    exact h
  · exact heffect _ (effect_of_step_ne hstep)

end Effects

section Accounting

/-- The bytes that an unfinished call asks for. -/
def Phase.asked : Phase → Option UInt64
  | .loading bytes | .trying bytes _ | .waiting bytes | .parked bytes
  | .notified bytes => some bytes
  | .holding _ | .releasing => none

/-- A task asks for some of the sizes, and what it tries to write is within the
limit. -/
def Phase.Asks (limit : UInt64) (sizes : Set UInt64) (phase : Phase) : Prop :=
  (∀ bytes, phase.asked = some bytes → bytes ≠ 0 ∧ bytes ∈ sizes) ∧
    ∀ bytes current, phase = .trying bytes current →
      current.toNat + bytes.toNat ≤ limit.toNat

/-- A task that tries nothing and asks for nothing but what it asked for before. -/
theorem Phase.Asks.of_asked {limit : UInt64} {sizes : Set UInt64} {phase : Phase}
    (h : ∀ bytes, phase.asked = some bytes → bytes ≠ 0 ∧ bytes ∈ sizes)
    (hne : ∀ bytes current, phase ≠ .trying bytes current) : phase.Asks limit sizes :=
  ⟨h, fun bytes current heq => absurd heq (hne bytes current)⟩

/-- The used bytes are those of the guards, and within the limit. -/
structure Sound (limit : UInt64) (sizes : Set UInt64) (b : Budget) : Prop where
  limit_eq : b.limit = limit
  used_eq : b.used.toNat = b.held
  used_le : b.used.toNat ≤ limit.toNat
  asks : ∀ t phase, b.tasks.lookup t = some phase → phase.Asks limit sizes

variable {limit : UInt64} {sizes : Set UInt64} {b b' : Budget} {a : Action}
variable {t : TaskId} {phase : Phase}

/-- The bytes of the guard of a task that may not be there. -/
def heldBy (b : Budget) (t : TaskId) : Nat :=
  (b.tasks.lookup t).elim 0 Phase.held

theorem Sound.set (h : Sound limit sizes b) (hlimit : b'.limit = b.limit)
    (htasks : b'.tasks = b.tasks.insert t phase) (hasks : phase.Asks limit sizes)
    (hused : b'.used.toNat + heldBy b t = b.used.toNat + phase.held)
    (hle : b'.used.toNat ≤ limit.toNat) : Sound limit sizes b' where
  limit_eq := hlimit.trans h.limit_eq
  used_eq := by
    have htotal := HashMap.total_insert_add Phase.held b.tasks t phase
    have hheld := h.used_eq
    unfold Budget.held heldBy at *
    rw [htasks]
    omega
  used_le := hle
  asks := by
    intro t' phase' ht'
    rw [htasks] at ht'
    rcases HashMap.lookup_insert_eq_some.mp ht' with ⟨-, rfl⟩ | ⟨-, hold⟩
    · exact hasks
    · exact h.asks t' phase' hold

theorem Sound.erase (h : Sound limit sizes b) (hlimit : b'.limit = b.limit)
    (htasks : b'.tasks = b.tasks.erase t) (hused : b'.used = b.used)
    (hnone : heldBy b t = 0) : Sound limit sizes b' where
  limit_eq := hlimit.trans h.limit_eq
  used_eq := by
    have htotal := HashMap.total_erase_add Phase.held b.tasks t
    have hheld := h.used_eq
    unfold Budget.held heldBy at *
    rw [htasks, hused]
    omega
  used_le := by
    rw [hused]
    exact h.used_le
  asks := by
    intro t' phase' ht'
    rw [htasks] at ht'
    exact h.asks t' phase' (HashMap.lookup_erase_eq_some.mp ht').2

/-- A task that has no guard before or after goes on. -/
theorem Sound.move {old : Phase} (h : Sound limit sizes b) (ht : b.tasks.lookup t = some old)
    (hlimit : b'.limit = b.limit) (htasks : b'.tasks = b.tasks.insert t phase)
    (hused : b'.used = b.used) (hold : old.held = 0) (hnew : phase.held = 0)
    (hasks : phase.Asks limit sizes) : Sound limit sizes b' := by
  refine h.set hlimit htasks hasks ?_ (by rw [hused]; exact h.used_le)
  rw [hused, hnew, heldBy, ht, Option.elim_some, hold]

theorem Sound.notifyOne (h : Sound limit sizes b) : Sound limit sizes b.notifyOne := by
  unfold Budget.notifyOne
  split
  · exact ⟨h.limit_eq, h.used_eq, h.used_le, h.asks⟩
  · split
    · next ht =>
        exact h.move ht rfl rfl rfl rfl rfl (.of_asked (h.asks _ _ ht).1 (by simp))
    · exact ⟨h.limit_eq, h.used_eq, h.used_le, h.asks⟩

/-- A sum that the budget compares with its limit does not wrap around. -/
theorem Sound.toNat_used_add (h : Sound limit sizes b) (hsums : SumsFit limit sizes)
    {bytes : UInt64} (hbytes : bytes ∈ sizes) :
    (b.used + bytes).toNat = b.used.toNat + bytes.toNat := by
  have hused := h.used_le
  have hfits := hsums bytes hbytes
  rw [UInt64.toNat_add, Nat.mod_eq_of_lt (by omega)]

theorem Sound.effect (h : Sound limit sizes b) (hsums : SumsFit limit sizes)
    (hasks : ∀ t bytes, a = .acquire t bytes → bytes ∈ sizes) (heffect : Effect b a b') :
    Sound limit sizes b' := by
  cases heffect with
  | called hnew hbytes =>
      refine h.set rfl rfl (.of_asked ?_ (by simp)) ?_ h.used_le
      · intro bytes heq
        obtain rfl := Option.some.inj heq
        exact ⟨hbytes, hasks _ _ rfl⟩
      · simp [heldBy, hnew, Phase.held, Budget.setPhase]
  | empty hnew =>
      refine h.set rfl rfl (.of_asked (by simp [Phase.asked]) (by simp)) ?_ h.used_le
      simp [heldBy, hnew, Phase.held, Budget.setPhase]
  | fits ht hfits =>
      obtain ⟨hasked, -⟩ := h.asks _ _ ht
      have hsum := h.toNat_used_add hsums (hasked _ rfl).2
      refine h.move ht rfl rfl rfl rfl rfl ⟨fun _ heq => hasked _ heq, ?_⟩
      intro bytes current heq
      obtain ⟨rfl, rfl⟩ := Phase.trying.inj heq
      rw [UInt64.le_iff_toNat_le, hsum, h.limit_eq] at hfits
      exact hfits
  | full ht _ =>
      exact h.move ht rfl rfl rfl rfl rfl (.of_asked (h.asks _ _ ht).1 (by simp))
  | exchanged ht =>
      obtain ⟨hasked, htrying⟩ := h.asks _ _ ht
      have hsum := h.toNat_used_add hsums (hasked _ rfl).2
      refine h.set rfl rfl (.of_asked (by simp [Phase.asked]) (by simp)) ?_ ?_
      · simp only [heldBy, ht, Option.elim_some, Phase.held, Budget.setPhase, hsum]
        rfl
      · simp only [Budget.setPhase, hsum]
        exact htrying _ _ rfl
  | overtaken ht _ =>
      exact h.move ht rfl rfl rfl rfl rfl (.of_asked (h.asks _ _ ht).1 (by simp))
  | permitted ht _ =>
      exact h.move ht rfl rfl rfl rfl rfl (.of_asked (h.asks _ _ ht).1 (by simp))
  | queued ht _ =>
      exact h.move ht rfl rfl rfl rfl rfl (.of_asked (h.asks _ _ ht).1 (by simp))
  | woken ht =>
      exact h.move ht rfl rfl rfl rfl rfl (.of_asked (h.asks _ _ ht).1 (by simp))
  | left ht =>
      exact h.erase rfl rfl rfl (by rw [heldBy, ht]; rfl)
  | @handedOn t _ ht =>
      have hremoved : Sound limit sizes (b.remove t) :=
        h.erase rfl rfl rfl (by rw [heldBy, ht]; rfl)
      exact hremoved.notifyOne
  | freed ht =>
      exact h.erase rfl rfl rfl (by rw [heldBy, ht]; rfl)
  | @dropped t bytes ht hbytes =>
      have hle : bytes.toNat ≤ b.held := HashMap.weight_le_total ht Phase.held
      have hheld := h.used_eq
      have hused := h.used_le
      have hless : (b.used - bytes).toNat = b.used.toNat - bytes.toNat :=
        UInt64.toNat_sub_of_le _ _ (UInt64.le_iff_toNat_le.mpr (hheld ▸ hle))
      refine h.set rfl rfl (.of_asked (by simp [Phase.asked]) (by simp)) ?_ ?_
      · simp only [heldBy, ht, Option.elim_some, Phase.held, Budget.setPhase]
        omega
      · simp only [Budget.setPhase]
        omega
  | @released t ht =>
      have hremoved : Sound limit sizes (b.remove t) :=
        h.erase rfl rfl rfl (by rw [heldBy, ht]; rfl)
      exact hremoved.notifyOne

end Accounting

section Progress

/-- A task that waits until another one notifies it. -/
def Phase.Waits : Phase → Prop
  | .waiting _ | .parked _ => True
  | _ => False

/-- A task that goes on by itself and looks at the used bytes or notifies. -/
def Phase.Stirs : Phase → Prop
  | .loading _ | .trying _ _ | .notified _ | .releasing => True
  | _ => False

/-- Something is in use, or a task or the permit is about to let a waiter look. -/
def Budget.Stirs (b : Budget) : Prop :=
  0 < b.used.toNat ∨ b.permit = true ∨ ∃ t phase, b.tasks.lookup t = some phase ∧ phase.Stirs

/-- The queue holds the parked tasks, a permit is kept only if it is empty, and
no task waits while nothing stirs. -/
structure Queued (b : Budget) : Prop where
  nodup : b.waiters.Nodup
  mem_waiters : ∀ t, t ∈ b.waiters ↔ ∃ bytes, b.tasks.lookup t = some (.parked bytes)
  permit : b.permit = true → b.waiters = []

structure Live (b : Budget) : Prop extends Queued b where
  stirs : ∀ t phase, b.tasks.lookup t = some phase → phase.Waits → b.Stirs

variable {limit : UInt64} {sizes : Set UInt64} {b b' : Budget} {a : Action}
variable {t : TaskId} {phase : Phase}

theorem Queued.set (h : Queued b) (htasks : b'.tasks = b.tasks.insert t phase)
    (hold : ∀ bytes, b.tasks.lookup t ≠ some (.parked bytes))
    (hnew : ∀ bytes, phase ≠ .parked bytes) (hwaiters : b'.waiters = b.waiters)
    (hpermit : b'.permit = true → b.permit = true) : Queued b' where
  nodup := hwaiters ▸ h.nodup
  mem_waiters := by
    intro t'
    rw [hwaiters, h.mem_waiters, htasks]
    simp only [HashMap.lookup_insert_of]
    by_cases htt : t' = t
    · subst htt
      simp only [if_true, Option.some.injEq]
      constructor
      · rintro ⟨bytes, hb⟩
        exact absurd hb (hold bytes)
      · rintro ⟨bytes, hb⟩
        exact absurd hb (hnew bytes)
    · rw [if_neg htt]
  permit := fun hp => hwaiters ▸ h.permit (hpermit hp)

theorem Queued.erase (h : Queued b) (htasks : b'.tasks = b.tasks.erase t)
    (hold : ∀ bytes, b.tasks.lookup t ≠ some (.parked bytes))
    (hwaiters : b'.waiters = b.waiters) (hpermit : b'.permit = b.permit) : Queued b' where
  nodup := hwaiters ▸ h.nodup
  mem_waiters := by
    intro t'
    rw [hwaiters, h.mem_waiters, htasks]
    simp only [HashMap.lookup_erase_of]
    by_cases htt : t' = t
    · subst htt
      simp only [if_true, reduceCtorEq, exists_false, iff_false]
      rintro ⟨bytes, hb⟩
      exact hold bytes hb
    · rw [if_neg htt]
  permit := fun hp => hwaiters ▸ h.permit (hpermit ▸ hp)

/-- What a notification does: it is kept, or it wakes up the oldest waiter. -/
theorem Queued.notifyOne_cases (h : Queued b) :
    b.waiters = [] ∧ b.notifyOne = { b with permit := true } ∨
      ∃ t waiters bytes, b.waiters = t :: waiters ∧
        b.tasks.lookup t = some (.parked bytes) ∧
        b.notifyOne = { b with waiters := waiters }.setPhase t (.notified bytes) := by
  cases hwaiters : b.waiters with
  | nil =>
      left
      simp [Budget.notifyOne, hwaiters]
  | cons t waiters =>
      right
      obtain ⟨bytes, ht⟩ := (h.mem_waiters t).mp (by simp [hwaiters])
      exact ⟨t, waiters, bytes, rfl, ht, by simp [Budget.notifyOne, hwaiters, ht]⟩

theorem Queued.notifyOne (h : Queued b) : Queued b.notifyOne := by
  rcases h.notifyOne_cases with ⟨hnil, heq⟩ | ⟨t, waiters, bytes, hcons, ht, heq⟩
  · rw [heq]
    exact ⟨h.nodup, h.mem_waiters, fun _ => hnil⟩
  · have hnodup := hcons ▸ h.nodup
    rw [heq]
    refine ⟨(List.nodup_cons.mp hnodup).2, fun t' => ?_, fun hp => ?_⟩
    · have hmem := h.mem_waiters t'
      simp only [Budget.setPhase, HashMap.lookup_insert_of]
      rw [hcons, List.mem_cons] at hmem
      by_cases htt : t' = t
      · subst htt
        simp [(List.nodup_cons.mp hnodup).1]
      · rw [if_neg htt, ← hmem]
        simp [htt]
    · exact absurd (h.permit hp) (by simp [hcons])

/-- After a notification something stirs. -/
theorem Queued.stirs_notifyOne (h : Queued b) : b.notifyOne.Stirs := by
  rcases h.notifyOne_cases with ⟨-, heq⟩ | ⟨t, waiters, bytes, -, -, heq⟩
  · rw [heq]
    exact .inr (.inl rfl)
  · rw [heq]
    exact .inr (.inr ⟨t, .notified bytes, by simp [Budget.setPhase], trivial⟩)

/-- A task that does not stir can change or go. -/
theorem Budget.Stirs.keep (h : b.Stirs) (hused : b'.used = b.used)
    (hpermit : b'.permit = b.permit)
    (hold : ∀ old, b.tasks.lookup t = some old → ¬ old.Stirs)
    (hothers : ∀ t', t' ≠ t → b'.tasks.lookup t' = b.tasks.lookup t') : b'.Stirs := by
  unfold Budget.Stirs at h ⊢
  rw [hused, hpermit]
  refine h.imp_right (Or.imp_right ?_)
  rintro ⟨t', phase, ht', hphase⟩
  refine ⟨t', phase, ?_, hphase⟩
  rw [hothers t' fun heq => hold phase (heq ▸ ht') hphase, ht']

theorem Budget.stirs_set (h : phase.Stirs) : (b.setPhase t phase).Stirs :=
  .inr (.inr ⟨t, phase, by simp [Budget.setPhase], h⟩)

theorem Live.effect (h : Live b) (hsound : Sound limit sizes b) (hsums : SumsFit limit sizes)
    (hsmall : ∀ bytes ∈ sizes, bytes ≤ limit) (heffect : Effect b a b') : Live b' := by
  have hset : ∀ {t : TaskId} {phase old : Phase} {b' : Budget}, b.tasks.lookup t = some old →
      b'.tasks = b.tasks.insert t phase → (∀ bytes, old ≠ .parked bytes) →
      (∀ bytes, phase ≠ .parked bytes) → b'.waiters = b.waiters →
      (b'.permit = true → b.permit = true) → Queued b' := by
    intro t phase old b' ht htasks hold hnew
    refine h.toQueued.set htasks (fun bytes heq => ?_) hnew
    rw [ht] at heq
    exact hold bytes (Option.some.inj heq)
  cases heffect with
  | called hnew _ =>
      refine ⟨h.toQueued.set rfl (by simp [hnew]) (by simp) rfl id, fun _ _ _ _ => ?_⟩
      exact Budget.stirs_set trivial
  | @empty t hnew =>
      refine ⟨h.toQueued.set rfl (by simp [hnew]) (by simp) rfl id, fun t' phase' ht' hwaits => ?_⟩
      rcases HashMap.lookup_insert_eq_some.mp ht' with ⟨rfl, rfl⟩ | ⟨hne, hold⟩
      · exact hwaits.elim
      · exact (h.stirs t' phase' hold hwaits).keep (t := t) rfl rfl (by simp [hnew])
          fun s hs => by simp [Budget.setPhase, AList.lookup_insert_ne hs]
  | fits ht _ =>
      refine ⟨hset ht rfl (by simp) (by simp) rfl id, fun _ _ _ _ => ?_⟩
      exact Budget.stirs_set trivial
  | @full t bytes ht hfull =>
      refine ⟨hset ht rfl (by simp) (by simp) rfl id, fun _ _ _ _ => Or.inl ?_⟩
      have hmem := ((hsound.asks _ _ ht).1 _ rfl).2
      have hle := UInt64.le_iff_toNat_le.mp (hsmall _ hmem)
      rw [UInt64.le_iff_toNat_le, hsound.toNat_used_add hsums hmem, hsound.limit_eq] at hfull
      show 0 < b.used.toNat
      omega
  | @exchanged t bytes ht =>
      refine ⟨hset ht rfl (by simp) (by simp) rfl id, fun _ _ _ _ => Or.inl ?_⟩
      obtain ⟨hne, hmem⟩ := (hsound.asks _ _ ht).1 _ rfl
      have hpos : bytes.toNat ≠ 0 := fun heq => hne (UInt64.toNat_inj.mp heq)
      show 0 < (b.used + bytes).toNat
      rw [hsound.toNat_used_add hsums hmem]
      omega
  | overtaken ht _ =>
      refine ⟨hset ht rfl (by simp) (by simp) rfl id, fun _ _ _ _ => ?_⟩
      exact Budget.stirs_set trivial
  | permitted ht _ =>
      refine ⟨hset ht rfl (by simp) (by simp) rfl (by simp [Budget.setPhase]), fun _ _ _ _ => ?_⟩
      exact Budget.stirs_set trivial
  | @queued t bytes ht hpermit =>
      have hstirs := h.stirs t _ ht trivial
      refine ⟨⟨?_, fun t' => ?_, fun hp => ?_⟩, fun _ _ _ _ => ?_⟩
      · refine List.nodup_append.mpr ⟨h.nodup, List.nodup_singleton t, ?_⟩
        rintro x hx y hy rfl
        obtain rfl := List.mem_singleton.mp hy
        obtain ⟨bytes', hx'⟩ := (h.mem_waiters x).mp hx
        rw [ht] at hx'
        cases hx'
      · have hmem := h.mem_waiters t'
        simp only [Budget.setPhase, List.mem_append, List.mem_singleton,
          HashMap.lookup_insert_of]
        by_cases htt : t' = t
        · simp [htt]
        · simp [htt, hmem]
      · exact absurd (hpermit.symm.trans hp) (by decide)
      · exact hstirs.keep (t := t) rfl rfl
          (fun old hold => by rw [ht] at hold; obtain rfl := Option.some.inj hold; exact id)
          fun s hs => by simp [Budget.setPhase, AList.lookup_insert_ne hs]
  | woken ht =>
      refine ⟨hset ht rfl (by simp) (by simp) rfl id, fun _ _ _ _ => ?_⟩
      exact Budget.stirs_set trivial
  | @left t bytes ht =>
      refine ⟨⟨h.nodup.filter _, fun t' => ?_, fun hp => ?_⟩, fun t' phase' ht' hwaits => ?_⟩
      · have hmem := h.mem_waiters t'
        simp only [Budget.remove, List.mem_filter, decide_eq_true_eq, HashMap.lookup_erase_of]
        by_cases htt : t' = t
        · simp [htt]
        · simp [htt, hmem]
      · show b.waiters.filter _ = []
        rw [h.permit hp]
        rfl
      · have hold := (HashMap.lookup_erase_eq_some.mp ht').2
        exact (h.stirs t' phase' hold hwaits).keep (t := t) rfl rfl
          (fun old hold => by rw [ht] at hold; obtain rfl := Option.some.inj hold; exact id)
          fun s hs => by simp [Budget.remove, AList.lookup_erase_ne hs]
  | @handedOn t _ ht =>
      have hqueued : Queued (b.remove t) :=
        h.toQueued.erase rfl (by simp [ht]) rfl rfl
      exact ⟨hqueued.notifyOne, fun _ _ _ _ => hqueued.stirs_notifyOne⟩
  | @freed t ht =>
      refine ⟨h.toQueued.erase rfl (by simp [ht]) rfl rfl, fun t' phase' ht' hwaits => ?_⟩
      have hold := (HashMap.lookup_erase_eq_some.mp ht').2
      exact (h.stirs t' phase' hold hwaits).keep (t := t) rfl rfl
        (fun old hold => by rw [ht] at hold; obtain rfl := Option.some.inj hold; exact id)
        fun s hs => by simp [Budget.remove, AList.lookup_erase_ne hs]
  | dropped ht _ =>
      refine ⟨hset ht rfl (by simp) (by simp) rfl id, fun _ _ _ _ => ?_⟩
      exact Budget.stirs_set trivial
  | @released t ht =>
      have hqueued : Queued (b.remove t) :=
        h.toQueued.erase rfl (by simp [ht]) rfl rfl
      exact ⟨hqueued.notifyOne, fun _ _ _ _ => hqueued.stirs_notifyOne⟩

end Progress

section Ending

/-- How often a task will still change the used bytes. -/
def Phase.changes : Phase → Nat
  | .holding _ => 1
  | .releasing => 0
  | _ => 2

/-- How far a task is from waiting in the queue, while the used bytes stay. -/
def Phase.weight (used : UInt64) : Phase → Nat
  | .loading _ => 2
  | .trying _ current => if current = used then 1 else 3
  | .waiting _ => 1
  | .parked _ => 0
  | .notified _ => 3
  | .holding _ => 0
  | .releasing => 4

/-- The changes that are still to come, and how long the tasks can go on
without one. -/
def Budget.measure (b : Budget) : Nat ×ₗ Nat :=
  toLex (HashMap.total Phase.changes b.tasks,
    HashMap.total (Phase.weight b.used) b.tasks + 3 * b.permit.toNat)

variable {limit : UInt64} {sizes : Set UInt64} {b b' : Budget} {a : Action}
variable {t : TaskId} {phase old : Phase}

theorem measure_lt_of_changes
    (h : HashMap.total Phase.changes b'.tasks < HashMap.total Phase.changes b.tasks) :
    b'.measure < b.measure :=
  Prod.Lex.toLex_lt_toLex.mpr (.inl h)

/-- A task that changes the used bytes. -/
theorem measure_set_lt (ht : b.tasks.lookup t = some old)
    (htasks : b'.tasks = b.tasks.insert t phase) (h : phase.changes < old.changes) :
    b'.measure < b.measure := by
  refine measure_lt_of_changes ?_
  have htotal := HashMap.total_replace ht Phase.changes phase
  rw [htasks]
  omega

/-- A task that goes on without changing them. -/
theorem measure_move_lt (ht : b.tasks.lookup t = some old)
    (htasks : b'.tasks = b.tasks.insert t phase) (hused : b'.used = b.used)
    (hchanges : phase.changes = old.changes)
    (h : phase.weight b.used + 3 * b'.permit.toNat <
      old.weight b.used + 3 * b.permit.toNat) :
    b'.measure < b.measure := by
  refine Prod.Lex.toLex_lt_toLex.mpr (.inr ⟨?_, ?_⟩)
  · have htotal := HashMap.total_replace ht Phase.changes phase
    rw [htasks]
    omega
  · have htotal := HashMap.total_replace ht (Phase.weight b.used) phase
    rw [htasks, hused]
    omega

/-- A notification costs less than a task that releases. -/
theorem Queued.measure_notifyOne (h : Queued b) :
    HashMap.total Phase.changes b.notifyOne.tasks = HashMap.total Phase.changes b.tasks ∧
      HashMap.total (Phase.weight b.notifyOne.used) b.notifyOne.tasks +
          3 * b.notifyOne.permit.toNat <
        HashMap.total (Phase.weight b.used) b.tasks + 3 * b.permit.toNat + 4 := by
  rcases h.notifyOne_cases with ⟨-, heq⟩ | ⟨t, waiters, bytes, -, ht, heq⟩
  · rw [heq]
    refine ⟨rfl, ?_⟩
    simp only [Bool.toNat_true]
    omega
  · have hchanges := HashMap.total_replace ht Phase.changes (.notified bytes)
    have hweight := HashMap.total_replace ht (Phase.weight b.used) (.notified bytes)
    simp only [Phase.changes, Phase.weight] at hchanges hweight
    rw [heq]
    refine ⟨?_, ?_⟩
    · simp only [Budget.setPhase]
      omega
    · simp only [Budget.setPhase]
      omega

theorem measure_lt_of_effect (h : Queued b) (hongoing : a.Ongoing) (heffect : Effect b a b') :
    b'.measure < b.measure := by
  cases heffect with
  | called => exact hongoing.elim
  | empty => exact hongoing.elim
  | fits ht _ =>
      refine measure_move_lt ht rfl rfl rfl (Nat.add_lt_add_right ?_ _)
      simp [Phase.weight]
  | full ht _ =>
      refine measure_move_lt ht rfl rfl rfl (Nat.add_lt_add_right ?_ _)
      simp [Phase.weight]
  | exchanged ht => exact measure_set_lt ht rfl Nat.one_lt_two
  | overtaken ht hne =>
      refine measure_move_lt ht rfl rfl rfl (Nat.add_lt_add_right ?_ _)
      simp [Phase.weight, Ne.symm hne]
  | permitted ht hpermit =>
      exact measure_move_lt ht rfl rfl rfl (by simp [Phase.weight, Budget.setPhase, hpermit])
  | queued ht _ =>
      refine measure_move_lt ht rfl rfl rfl (Nat.add_lt_add_right ?_ _)
      simp [Phase.weight]
  | woken ht =>
      refine measure_move_lt ht rfl rfl rfl (Nat.add_lt_add_right ?_ _)
      simp [Phase.weight]
  | left => exact hongoing.elim
  | handedOn => exact hongoing.elim
  | freed ht =>
      refine measure_lt_of_changes ?_
      have htotal := HashMap.total_erase ht Phase.changes
      simp only [Phase.changes, Budget.remove] at htotal ⊢
      omega
  | dropped ht _ => exact measure_set_lt ht rfl Nat.zero_lt_one
  | @released t ht =>
      have hqueued : Queued (b.remove t) := h.erase rfl (by simp [ht]) rfl rfl
      obtain ⟨hchanges, hweight⟩ := hqueued.measure_notifyOne
      have hchanges' := HashMap.total_erase ht Phase.changes
      have hweight' := HashMap.total_erase ht (Phase.weight b.used)
      simp only [Phase.changes, Phase.weight] at hchanges' hweight'
      refine Prod.Lex.toLex_lt_toLex.mpr (.inr ⟨?_, ?_⟩)
      · rw [hchanges]
        exact hchanges'
      · refine hweight.trans_le ?_
        simp only [Budget.remove]
        omega

/-- In a settled state a task can only be in the queue. -/
theorem parked_of_settled (h : Settled Budget.step Action.Ongoing b)
    (ht : b.tasks.lookup t = some phase) : ∃ bytes, phase = .parked bytes := by
  have hset : ∀ {b' : Budget} {new : Phase}, b'.tasks = b.tasks.insert t new → b' = b →
      phase = new := by
    intro b' new htasks heq
    have hlookup := congrArg (fun m => m.lookup t) (htasks.symm.trans (congrArg Budget.tasks heq))
    simp only [AList.lookup_insert, ht] at hlookup
    exact (Option.some.inj hlookup).symm
  cases phase with
  | parked bytes => exact ⟨bytes, rfl⟩
  | loading bytes =>
      have hstep := h (.load t) trivial
      simp only [Budget.step, Budget.load, ht] at hstep
      split at hstep
      · cases hset rfl hstep
      · cases hset rfl hstep
  | trying bytes current =>
      have hstep := h (.exchange t) trivial
      simp only [Budget.step, Budget.exchange, ht] at hstep
      split at hstep
      · cases hset rfl hstep
      · cases hset rfl hstep
  | waiting bytes =>
      have hstep := h (.poll t) trivial
      simp only [Budget.step, Budget.poll, ht] at hstep
      split at hstep
      · cases hset rfl hstep
      · cases hset rfl hstep
  | notified bytes =>
      have hstep := h (.wake t) trivial
      simp only [Budget.step, Budget.wake, ht] at hstep
      cases hset rfl hstep
  | holding bytes =>
      have hstep := h (.drop t) trivial
      simp only [Budget.step, Budget.drop, ht] at hstep
      split at hstep
      · have hlookup := congrArg (fun b => b.tasks.lookup t) hstep
        simp [Budget.remove, ht] at hlookup
      · cases hset rfl hstep
  | releasing =>
      have hstep := h (.notify t) trivial
      simp only [Budget.step, Budget.notify, ht] at hstep
      have hlookup := congrArg (fun b => b.tasks.lookup t) hstep
      have hnone : (b.remove t).tasks.lookup t = none := AList.lookup_erase _ _
      simp only [Budget.notifyOne] at hlookup
      split at hlookup
      · simp [hnone, ht] at hlookup
      · split at hlookup
        · next s _ _ _ _ hs =>
            have hne : t ≠ s := by
              rintro rfl
              simp [hnone] at hs
            simp [Budget.setPhase, AList.lookup_insert_ne hne, hnone, ht] at hlookup
        · simp [hnone, ht] at hlookup

/-- A settled state in which every waiter would be woken has no tasks left. -/
theorem Live.entries_eq_nil (h : Live b) (hsound : Sound limit sizes b)
    (hsettled : Settled Budget.step Action.Ongoing b) : b.tasks.entries = [] := by
  refine HashMap.entries_eq_nil fun t => ?_
  cases ht : b.tasks.lookup t with
  | none => rfl
  | some phase =>
      obtain ⟨bytes, rfl⟩ := parked_of_settled hsettled ht
      have hwaiting : t ∈ b.waiters := (h.mem_waiters t).mpr ⟨bytes, ht⟩
      have hheld : b.held = 0 := HashMap.total_eq_zero fun t' phase ht' => by
        obtain ⟨bytes', rfl⟩ := parked_of_settled hsettled ht'
        rfl
      rcases h.stirs t _ ht trivial with hused | hpermit | ⟨t', phase, ht', hstirs⟩
      · rw [hsound.used_eq, hheld] at hused
        omega
      · rw [h.permit hpermit] at hwaiting
        cases hwaiting
      · obtain ⟨bytes', rfl⟩ := parked_of_settled hsettled ht'
        exact hstirs.elim

end Ending

section Runs

variable {limit : UInt64} {sizes : Set UInt64} {actions : List Action}

theorem run_concat (limit : UInt64) (actions : List Action) (a : Action) :
    run limit (actions ++ [a]) = (run limit actions).step a := by
  simp only [run, List.foldl_append, List.foldl_cons, List.foldl_nil]

theorem AsksFor.of_concat {a : Action} (h : AsksFor sizes (actions ++ [a])) :
    AsksFor sizes actions ∧ ∀ t bytes, a = .acquire t bytes → bytes ∈ sizes :=
  ⟨fun t bytes hmem => h t bytes (List.mem_append_left _ hmem),
    fun t bytes heq => h t bytes (by simp [heq])⟩

theorem sound_run (hsums : SumsFit limit sizes) (hasks : AsksFor sizes actions) :
    Sound limit sizes (run limit actions) := by
  induction actions using List.reverseRecOn with
  | nil =>
      exact ⟨rfl, rfl, Nat.zero_le _, fun t phase ht => by cases ht⟩
  | append_singleton actions a ih =>
      obtain ⟨hbefore, hlast⟩ := hasks.of_concat
      rw [run_concat]
      exact inv_step (ih hbefore) fun b' heffect => (ih hbefore).effect hsums hlast heffect

theorem live_run (hsums : SumsFit limit sizes) (hsmall : ∀ bytes ∈ sizes, bytes ≤ limit)
    (hasks : AsksFor sizes actions) : Live (run limit actions) := by
  induction actions using List.reverseRecOn with
  | nil =>
      refine ⟨⟨List.nodup_nil, fun t => ?_, fun _ => rfl⟩, fun t phase ht => by cases ht⟩
      exact iff_of_false (List.not_mem_nil) (by rintro ⟨bytes, hb⟩; cases hb)
  | append_singleton actions a ih =>
      obtain ⟨hbefore, -⟩ := hasks.of_concat
      rw [run_concat]
      exact inv_step (ih hbefore) fun b' heffect =>
        (ih hbefore).effect (sound_run hsums hbefore) hsums hsmall heffect

/-- In every run the bytes in use are those of the guards, and no more than the
limit. -/
theorem used_run (hsums : SumsFit limit sizes) (hasks : AsksFor sizes actions) :
    (run limit actions).used.toNat = (run limit actions).held ∧
      (run limit actions).held ≤ limit.toNat := by
  have hsound := sound_run hsums hasks
  exact ⟨hsound.used_eq, hsound.used_eq ▸ hsound.used_le⟩

/-- A task that has seen that its bytes do not fit, and is alone. -/
structure Alone (bytes : UInt64) (b : Budget) : Prop where
  parked : b.tasks.lookup 0 = some (.parked bytes)
  others : ∀ t, t ≠ 0 → b.tasks.lookup t = none

theorem Alone.settled {bytes : UInt64} {b : Budget} (h : Alone bytes b) :
    Settled Budget.step Action.Ongoing b := by
  intro a ha
  have hcases : ∀ t, b.tasks.lookup t = some (.parked bytes) ∨ b.tasks.lookup t = none := by
    intro t
    by_cases ht : t = 0
    · exact .inl (ht ▸ h.parked)
    · exact .inr (h.others t ht)
  cases a with
  | acquire => exact ha.elim
  | cancel => exact ha.elim
  | load t => rcases hcases t with ht | ht <;> simp [Budget.step, Budget.load, ht]
  | exchange t => rcases hcases t with ht | ht <;> simp [Budget.step, Budget.exchange, ht]
  | poll t => rcases hcases t with ht | ht <;> simp [Budget.step, Budget.poll, ht]
  | wake t => rcases hcases t with ht | ht <;> simp [Budget.step, Budget.wake, ht]
  | drop t => rcases hcases t with ht | ht <;> simp [Budget.step, Budget.drop, ht]
  | notify t => rcases hcases t with ht | ht <;> simp [Budget.step, Budget.notify, ht]

/-- A single call for more than the limit joins the queue. -/
theorem alone_run {bytes : UInt64} (hlarge : ¬ bytes ≤ limit) :
    Alone bytes (run limit [.acquire 0 bytes, .load 0, .poll 0]) := by
  have hbytes : bytes ≠ 0 := by
    rintro rfl
    exact hlarge (UInt64.le_iff_toNat_le.mpr (Nat.zero_le _))
  have hfull : ¬ ((0 : UInt64) + bytes ≤ limit) := by
    rwa [UInt64.zero_add]
  have hacquire : (new limit).acquire 0 bytes = (new limit).setPhase 0 (.loading bytes) :=
    congrArg ((new limit).setPhase 0) (if_neg hbytes)
  have hload : ((new limit).setPhase 0 (.loading bytes)).load 0 =
      ((new limit).setPhase 0 (.loading bytes)).setPhase 0 (.waiting bytes) := by
    simp only [Budget.load, Budget.lookup_setPhase]
    exact if_neg hfull
  change Alone bytes ((((new limit).acquire 0 bytes).load 0).poll 0)
  rw [hacquire, hload]
  simp only [Budget.poll, Budget.lookup_setPhase]
  refine ⟨Budget.lookup_setPhase _ _ _, fun t ht => ?_⟩
  exact (Budget.lookup_setPhase_of_ne _ ht _).trans
    ((Budget.lookup_setPhase_of_ne _ ht _).trans (Budget.lookup_setPhase_of_ne _ ht _))

/-- It stays there for ever. -/
theorem not_finishes_of_large {bytes : UInt64} (hlarge : ¬ bytes ≤ limit) :
    ¬ (run limit [.acquire 0 bytes, .load 0, .poll 0]).Finishes := by
  have halone := alone_run hlarge
  have hongoing : ∀ n : Nat, ((fun _ => .poll 0 : Nat → Action) n).Ongoing :=
    fun _ => trivial
  have hafter := halone.settled.after hongoing
  refine not_reaches (fun _ => .poll 0) (fun n => ?_) fun n hn => ?_
  · refine ⟨trivial, fun _ => ?_⟩
    rw [hafter]
    exact halone.settled
  · have hmem := AList.mem_lookup_iff.mp halone.parked
    rw [hafter] at hn
    rw [hn] at hmem
    cases hmem

/-- All calls of every run come to their guards, whatever the order of the steps,
exactly if no call asks for more than the limit.  A call that does joins the queue
and stays there, even if it is alone. -/
theorem finishes_iff_within (hsums : SumsFit limit sizes) :
    ((∀ actions, AsksFor sizes actions → (run limit actions).Finishes) ↔
      ∀ bytes ∈ sizes, bytes ≤ limit) ∧
    ∀ bytes, ¬ bytes ≤ limit → ∀ schedule : Nat → Action, (∀ n, (schedule n).Ongoing) →
      ∀ n, (Schedule.after Budget.step (run limit [.acquire 0 bytes, .load 0, .poll 0])
        schedule n).tasks.lookup 0 = some (.parked bytes) := by
  refine ⟨⟨?_, ?_⟩, ?_⟩
  · intro h bytes hbytes
    by_contra hlarge
    refine not_finishes_of_large hlarge (h _ fun t bytes' hmem => ?_)
    simp only [List.mem_cons, Action.acquire.injEq, reduceCtorEq, List.not_mem_nil,
      or_false] at hmem
    exact hmem.2 ▸ hbytes
  · intro hsmall actions hasks
    refine reaches_of_settled (I := fun b => Sound limit sizes b ∧ Live b) Budget.measure
      ?_ ?_ ?_ ⟨sound_run hsums hasks, live_run hsums hsmall hasks⟩
    · rintro b a ⟨hsound, hlive⟩ hongoing
      refine inv_step (I := fun b => Sound limit sizes b ∧ Live b) ⟨hsound, hlive⟩
        fun b' heffect => ⟨?_, ?_⟩
      · refine hsound.effect hsums (fun t bytes heq => ?_) heffect
        rw [heq] at hongoing
        exact hongoing.elim
      · exact hlive.effect hsound hsums hsmall heffect
    · rintro b a ⟨hsound, hlive⟩ hongoing hstep
      exact measure_lt_of_effect hlive.toQueued hongoing (effect_of_step_ne hstep)
    · rintro b ⟨hsound, hlive⟩ hsettled
      exact hlive.entries_eq_nil hsound hsettled
  · intro bytes hlarge schedule hongoing n
    have halone := alone_run hlarge
    rw [halone.settled.after hongoing]
    exact halone.parked

/-- Two tasks read the same number, and one of them has to try again. -/
theorem used_run_two :
    (run 10 [.acquire 0 4, .acquire 1 5, .load 0, .load 1, .exchange 0, .exchange 1, .load 1,
        .exchange 1]).used.toNat =
      (run 10 [.acquire 0 4, .acquire 1 5, .load 0, .load 1, .exchange 0, .exchange 1, .load 1,
        .exchange 1]).held ∧
      (run 10 [.acquire 0 4, .acquire 1 5, .load 0, .load 1, .exchange 0, .exchange 1, .load 1,
        .exchange 1]).held ≤ 10 :=
  @used_run 10 {4, 5} _ (by rintro bytes (rfl | rfl) <;> decide)
    (by
      intro t bytes hmem
      simp at hmem
      grind)

/-- A task holds its guard and another one waits for it; another budget is too
small for its only task. -/
theorem finishes_of_small :
    (run 10 [.acquire 0 4, .acquire 1 7, .load 0, .exchange 0, .load 1]).Finishes ∧
      ∀ n, (Schedule.after Budget.step (run 10 [.acquire 0 11, .load 0, .poll 0])
        (fun n => .poll n) n).tasks.lookup 0 = some (.parked 11) := by
  have hsums : SumsFit 10 {4, 7} := by
    rintro bytes (rfl | rfl) <;> decide
  obtain ⟨hfinishes, hwaits⟩ := finishes_iff_within hsums
  refine ⟨hfinishes.mpr ?_ _ ?_, hwaits 11 (by decide) _ fun _ => trivial⟩
  · rintro bytes (rfl | rfl) <;> decide
  · intro t bytes hmem
    simp only [List.mem_cons, Action.acquire.injEq, reduceCtorEq, List.not_mem_nil,
      or_false] at hmem
    obtain ⟨-, rfl⟩ | ⟨-, rfl⟩ := hmem
    · exact Or.inl rfl
    · exact Or.inr rfl

end Runs

end MemoryBudget
end Agent
end HyperBackup
