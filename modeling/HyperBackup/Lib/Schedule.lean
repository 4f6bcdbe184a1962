import Mathlib.Data.Prod.Lex
import Mathlib.Order.OrderIsoNat

/-!
# Schedules that do not idle

A schedule picks an action at every time.  An action that nobody can take now
leaves the state as it is.  A schedule that picks an effective action as long
as there is one comes to a settled state, if every effective action decreases a
measure.
-/

namespace Lib
namespace Schedule

universe u v w

variable {σ : Type u} {α : Type v} (step : σ → α → σ) (can : α → Prop)

/-- The state after some steps of a schedule. -/
def after (s : σ) (schedule : Nat → α) : Nat → σ
  | 0 => s
  | n + 1 => step (after s schedule n) (schedule n)

/-- No action changes the state. -/
def Settled (s : σ) : Prop :=
  ∀ a, can a → step s a = s

/-- An action without effect is picked in settled states only. -/
def NeverIdle (s : σ) (schedule : Nat → α) : Prop :=
  ∀ n, can (schedule n) ∧
    (step (after step s schedule n) (schedule n) = after step s schedule n →
      Settled step can (after step s schedule n))

/-- Every schedule that does not idle reaches a state of the kind. -/
def Reaches (good : σ → Prop) (s : σ) : Prop :=
  ∀ schedule, NeverIdle step can s schedule → ∃ n, good (after step s schedule n)

variable {step} {can} {I good : σ → Prop} {s : σ} {schedule : Nat → α}

/-- Nothing happens to a settled state. -/
theorem Settled.after (h : Settled step can s) (hcan : ∀ n, can (schedule n)) (n : Nat) :
    after step s schedule n = s := by
  induction n with
  | zero => rfl
  | succ n ih => rw [Schedule.after, ih, h (schedule n) (hcan n)]

/-- What the actions keep holds after any number of steps. -/
theorem inv_after (hstep : ∀ s a, I s → can a → I (step s a)) (h : I s)
    (hcan : ∀ n, can (schedule n)) : ∀ n, I (after step s schedule n)
  | 0 => h
  | n + 1 => hstep _ _ (inv_after hstep h hcan n) (hcan n)

section Measure

variable {β : Type w} [Preorder β] [WellFoundedLT β] (measure : σ → β)

/-- Effective actions that decrease a measure come to an end. -/
theorem exists_settled (hstep : ∀ s a, I s → can a → I (step s a))
    (hless : ∀ s a, I s → can a → step s a ≠ s → measure (step s a) < measure s)
    (h : I s) (hidle : NeverIdle step can s schedule) :
    ∃ n, Settled step can (after step s schedule n) := by
  by_contra hnone
  have hbusy : ∀ n, ¬ Settled step can (after step s schedule n) :=
    fun n hn => hnone ⟨n, hn⟩
  have hinv := inv_after hstep h fun n => (hidle n).1
  have hdecreases : ∀ n, measure (after step s schedule (n + 1)) <
      measure (after step s schedule n) := by
    intro n
    refine hless _ _ (hinv n) (hidle n).1 fun heq => ?_
    exact hbusy n ((hidle n).2 heq)
  exact not_strictAnti_of_wellFoundedLT (fun n => measure (after step s schedule n))
    (strictAnti_nat_of_succ_lt hdecreases)

/-- If settled states are of the kind, every schedule reaches one. -/
theorem reaches_of_settled (hstep : ∀ s a, I s → can a → I (step s a))
    (hless : ∀ s a, I s → can a → step s a ≠ s → measure (step s a) < measure s)
    (hsettled : ∀ s, I s → Settled step can s → good s) (h : I s) :
    Reaches step can good s := by
  intro schedule hidle
  obtain ⟨n, hn⟩ := exists_settled measure hstep hless h hidle
  exact ⟨n, hsettled _ (inv_after hstep h (fun n => (hidle n).1) n) hn⟩

end Measure

/-- One schedule that does not idle and never reaches a state of the kind. -/
theorem not_reaches (schedule : Nat → α) (hidle : NeverIdle step can s schedule)
    (hnever : ∀ n, ¬ good (after step s schedule n)) :
    ¬ Reaches step can good s := by
  intro h
  obtain ⟨n, hn⟩ := h schedule hidle
  exact hnever n hn

end Schedule
end Lib
