import HyperBackup.Lib.HashMap
import Mathlib.Data.List.Sort

/-!
# Queues that are served in batches

Elements arrive with a key, and a service takes the `k` elements with the least
keys, those with equal keys in any order.  An element waits at most as many services
as it takes to serve all elements that were there with a key that is not larger, if
all later arrivals have larger keys.
-/

namespace Lib
namespace BatchQueue

universe u v

variable {α : Type u} {β : Type v} [LinearOrder β] (key : α → β) (k : Nat)

/-- The `k` elements with the least keys. -/
def batch (order : IterOrder α) (q : List α) : List α :=
  ((order.arrange q).insertionSort fun a b => key a ≤ key b).take k

/-- The number of elements whose keys are not larger. -/
def ahead (b : β) (q : List α) : Nat :=
  q.countP fun a => key a ≤ b

/-- What happens to a queue. -/
inductive Action (α : Type u) : Type u
  | arrive (a : α)
  | serve (order : IterOrder α)

def Action.isServe : Action α → Bool
  | .serve _ => true
  | .arrive _ => false

section Batches

variable {key k} {order : IterOrder α} {q : List α} {a : α}

theorem perm_sorted (key : α → β) (order : IterOrder α) (q : List α) :
    ((order.arrange q).insertionSort fun a b => key a ≤ key b).Perm q :=
  (List.perm_insertionSort _ _).trans (order.perm q)

theorem subperm_batch (key : α → β) (k : Nat) (order : IterOrder α) (q : List α) :
    (batch key k order q).Subperm q :=
  (List.take_sublist _ _).subperm.trans (perm_sorted key order q).subperm

theorem mem_of_mem_batch (h : a ∈ batch key k order q) : a ∈ q :=
  (subperm_batch key k order q).subset h

/-- An element is left behind only by a full batch of elements with no larger keys. -/
theorem batch_of_not_mem (ha : a ∈ q) (hleft : a ∉ batch key k order q) :
    (batch key k order q).length = k ∧ ∀ b ∈ batch key k order q, key b ≤ key a := by
  have hperm := perm_sorted key order q
  have hsorted : ((order.arrange q).insertionSort fun a b => key a ≤ key b).Pairwise
      fun a b => key a ≤ key b :=
    List.pairwise_insertionSort _ _
  have hsplit := List.take_append_drop k
    ((order.arrange q).insertionSort fun a b => key a ≤ key b)
  have hdrop : a ∈ ((order.arrange q).insertionSort fun a b => key a ≤ key b).drop k := by
    have hmem := hperm.mem_iff.mpr ha
    rw [← hsplit] at hmem
    exact (List.mem_append.mp hmem).resolve_left hleft
  constructor
  · have hpos := List.length_pos_of_mem hdrop
    rw [List.length_drop] at hpos
    rw [batch, List.length_take]
    omega
  · intro b hb
    rw [← hsplit] at hsorted
    exact (List.pairwise_append.mp hsorted).2.2 b hb a hdrop

variable [DecidableEq α]

/-- A service that leaves an element behind takes `k` elements from before it. -/
theorem ahead_of_not_mem (ha : a ∈ q) (hleft : a ∉ batch key k order q) :
    ahead key (key a) (q.filter fun b => b ∉ batch key k order q) + k ≤
      ahead key (key a) q := by
  obtain ⟨hlength, hkeys⟩ := batch_of_not_mem ha hleft
  have hall : (batch key k order q).countP
      (fun b => b ∈ batch key k order q ∧ key b ≤ key a) = k :=
    (List.countP_eq_length.mpr fun b hb => decide_eq_true ⟨hb, hkeys b hb⟩).trans hlength
  have htaken : k ≤ (q.filter fun b => b ∈ batch key k order q).countP
      fun b => key b ≤ key a := by
    have hle := (subperm_batch key k order q).countP_le
      (fun b => b ∈ batch key k order q ∧ key b ≤ key a)
    rw [hall] at hle
    rw [List.countP_filter]
    refine hle.trans (le_of_eq (List.countP_congr fun b _ => ?_))
    simp [and_comm]
  have hsplit := List.countP_eq_countP_filter_add q (fun b => decide (key b ≤ key a))
    (fun b => decide (b ∈ batch key k order q))
  have hrest : (q.filter fun b => b ∉ batch key k order q) =
      q.filter fun b => !decide (b ∈ batch key k order q) :=
    List.filter_congr fun b _ => decide_not
  rw [ahead, ahead, hrest, hsplit]
  omega

end Batches

section Runs

variable [DecidableEq α]

def step (q : List α) : Action α → List α
  | .arrive a => q ++ [a]
  | .serve order => q.filter fun b => b ∉ batch key k order q

def run (q : List α) (actions : List (Action α)) : List α :=
  actions.foldl (step key k) q

variable {key k} {q : List α} {a : α} {action : Action α} {actions : List (Action α)}

/-- What is in a queue was there before or has just arrived. -/
theorem mem_of_mem_step (h : a ∈ step key k q action) : a ∈ q ∨ action = .arrive a := by
  cases action with
  | arrive b =>
      rcases List.mem_append.mp h with hmem | hnew
      · exact Or.inl hmem
      · exact Or.inr (by rw [List.mem_singleton.mp hnew])
  | serve order =>
      exact Or.inl (List.mem_of_mem_filter h)

theorem mem_of_mem_run (h : a ∈ run key k q actions) : a ∈ q ∨ .arrive a ∈ actions := by
  induction actions generalizing q with
  | nil =>
      exact Or.inl h
  | cons action actions ih =>
      rcases ih h with hmem | hlater
      · rcases mem_of_mem_step hmem with hold | hnew
        · exact Or.inl hold
        · exact Or.inr (hnew ▸ List.mem_cons_self)
      · exact Or.inr (List.mem_cons_of_mem _ hlater)

/-- What waits stays where it is if there is no service. -/
theorem mem_run_of_unserved (h : a ∈ q) (hunserved : actions.countP Action.isServe = 0) :
    a ∈ run key k q actions := by
  induction actions generalizing q with
  | nil =>
      exact h
  | cons action actions ih =>
      rw [List.countP_cons, Nat.add_eq_zero_iff] at hunserved
      cases action with
      | arrive b =>
          exact ih (List.mem_append_left _ h) hunserved.1
      | serve order =>
          cases hunserved.2

/-- A step lowers the number of elements ahead by `k` if it is a service, and does not
raise it if what arrives has a larger key. -/
theorem ahead_step_le (hlater : ∀ b, action = .arrive b → key a < key b)
    (h : a ∈ step key k q action) :
    ahead key (key a) (step key k q action) + (if action.isServe then k else 0) ≤
      ahead key (key a) q := by
  cases action with
  | arrive b =>
      have hnot : ¬ key b ≤ key a := not_le_of_gt (hlater b rfl)
      simp [step, ahead, Action.isServe, hnot]
  | serve order =>
      have hmem := List.mem_filter.mp h
      exact ahead_of_not_mem hmem.1 (of_decide_eq_true hmem.2)

/-- An element that still waits after some services was behind more elements than
those services took. -/
theorem mul_serves_lt_ahead (hlater : ∀ b, .arrive b ∈ actions → key a < key b)
    (h : a ∈ run key k q actions) :
    k * actions.countP Action.isServe < ahead key (key a) q := by
  induction actions generalizing q with
  | nil =>
      exact List.countP_pos_iff.mpr ⟨a, h, decide_eq_true le_rfl⟩
  | cons action actions ih =>
      have hlater' : ∀ b, .arrive b ∈ actions → key a < key b :=
        fun b hb => hlater b (List.mem_cons_of_mem _ hb)
      have hafter : a ∈ run key k (step key k q action) actions := h
      have hmem := (mem_of_mem_run hafter).resolve_right fun hnew =>
        lt_irrefl _ (hlater' a hnew)
      have hfirst := ahead_step_le (fun b hb => hlater b (hb ▸ List.mem_cons_self)) hmem
      have hrest := ih hlater' h
      rw [List.countP_cons, Nat.mul_add]
      split at hfirst
      · next hserve =>
          rw [if_pos hserve]
          omega
      · next hother =>
          rw [if_neg hother]
          omega

end Runs

end BatchQueue
end Lib
