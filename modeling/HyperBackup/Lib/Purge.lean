import Mathlib.Data.List.Basic

/-!
# Runs without their silent actions

Every action of a run is answered and may change the state.  Actions that leave
the state as it is can be taken out of a run: it ends in the same state, and the
actions that stay get the same answers.
-/

namespace Lib
namespace Purge

universe u v w

variable {σ : Type u} {α : Type v} {β : Type w}
variable (step : σ → α → σ) (answer : σ → α → β)

/-- The actions of a run with their answers. -/
def log : σ → List α → List (α × β)
  | _, [] => []
  | s, a :: actions => (a, answer s a) :: log (step s a) actions

variable {step} {answer} {p : α → Bool}

theorem foldl_filter (hsilent : ∀ s a, p a = false → step s a = s) (actions : List α) (s : σ) :
    (actions.filter p).foldl step s = actions.foldl step s := by
  induction actions generalizing s with
  | nil => rfl
  | cons a actions ih =>
      cases hp : p a with
      | true =>
          rw [List.filter_cons_of_pos hp, List.foldl_cons, List.foldl_cons, ih]
      | false =>
          rw [List.filter_cons_of_neg (by simp [hp]), List.foldl_cons, hsilent s a hp, ih]

theorem log_filter (hsilent : ∀ s a, p a = false → step s a = s) (actions : List α) (s : σ) :
    log step answer s (actions.filter p) =
      (log step answer s actions).filter (p ∘ Prod.fst) := by
  induction actions generalizing s with
  | nil => rfl
  | cons a actions ih =>
      rw [log, List.filter_cons, List.filter_cons, Function.comp_apply]
      cases hp : p a with
      | true =>
          rw [if_pos rfl, if_pos rfl, log, ih]
      | false =>
          rw [if_neg Bool.false_ne_true, if_neg Bool.false_ne_true, ih, hsilent s a hp]

/-- A run that changes the state takes an action that is not silent. -/
theorem exists_of_foldl_ne {P : α → Prop} {actions : List α} {s : σ}
    (hsilent : ∀ s a, ¬ P a → step s a = s) (h : actions.foldl step s ≠ s) :
    ∃ a ∈ actions, P a := by
  by_contra hnone
  refine h (List.foldlRecOn actions step (motive := fun t => t = s) rfl ?_)
  rintro t rfl a ha
  exact hsilent t a fun hP => hnone ⟨a, ha, hP⟩

end Purge
end Lib
