import HyperBackup.Lib.Program

/-!
# Programs that act alike in related states

Two programs act alike from two states if they deliver the same value, or stop
for the same reason, and leave related states.  The rules follow the structure of
the programs.
-/

namespace Lib
namespace Simulation

universe u

variable {ε ε' σ α β : Type u}

open Program

/-- Same outcome, related states afterwards. -/
def Alike (R : σ → σ → Prop) (x : EStateM ε σ α) (s : σ) (y : EStateM ε σ α) (t : σ) : Prop :=
  outcome x s = outcome y t ∧ R (stateAfter x s) (stateAfter y t)

variable {R : σ → σ → Prop} {s t : σ}

theorem alike_pure (a : α) (h : R s t) :
    Alike R (pure a : EStateM ε σ α) s (pure a) t :=
  ⟨rfl, h⟩

theorem alike_ofResult (f : ε' → ε) (r : Except ε' α) (h : R s t) :
    Alike R (ofResult f r : EStateM ε σ α) s (ofResult f r) t := by
  cases r with
  | ok a => exact ⟨rfl, h⟩
  | error e => exact ⟨rfl, h⟩

theorem alike_bind {x y : EStateM ε σ α} {f g : α → EStateM ε σ β}
    (hx : Alike R x s y t) (hf : ∀ a s' t', R s' t' → Alike R (f a) s' (g a) t') :
    Alike R (x >>= f) s (y >>= g) t := by
  obtain ⟨hout, hstate⟩ := hx
  unfold Alike
  rw [stateAfter_bind, stateAfter_bind, ← hout]
  cases h : outcome x s with
  | error e =>
      rw [outcome_bind_of_error h, outcome_bind_of_error (hout.symm.trans h)]
      exact ⟨rfl, hstate⟩
  | ok a =>
      rw [outcome_bind_of_run (run_eq_ok_iff.mpr ⟨h, rfl⟩),
        outcome_bind_of_run (run_eq_ok_iff.mpr ⟨hout.symm.trans h, rfl⟩)]
      exact hf a _ _ hstate

/-- A program that reads its state first. -/
theorem alike_get_bind {f g : σ → EStateM ε σ α} (h : Alike R (f s) s (g t) t) :
    Alike R (get >>= f) s (get >>= g) t :=
  h

theorem alike_modify {f : σ → σ} (h : R (f s) (f t)) :
    Alike R (modify f : EStateM ε σ PUnit) s (modify f) t :=
  ⟨rfl, h⟩

theorem alike_foldlM {f g : β → α → EStateM ε σ β} (xs : List α)
    (hf : ∀ b, ∀ x ∈ xs, ∀ s' t', R s' t' → Alike R (f b x) s' (g b x) t') :
    ∀ b s t, R s t → Alike R (xs.foldlM f b) s (xs.foldlM g b) t := by
  induction xs with
  | nil => exact fun b s t h => alike_pure b h
  | cons x xs ih =>
      intro b s t h
      rw [List.foldlM_cons, List.foldlM_cons]
      refine alike_bind (hf b x (by simp) s t h) fun b' s' t' h' => ?_
      exact ih (fun c y hy => hf c y (by simp [hy])) b' s' t' h'

/-- Programs that treat every element of a list alike. -/
theorem foldlM_congr {m : Type u → Type u} [Monad m] {f g : β → α → m β} {xs : List α}
    (h : ∀ x ∈ xs, ∀ b, f b x = g b x) : ∀ b, xs.foldlM f b = xs.foldlM g b := by
  induction xs with
  | nil => exact fun b => rfl
  | cons x xs ih =>
      intro b
      rw [List.foldlM_cons, List.foldlM_cons, h x (by simp) b]
      exact bind_congr fun b' => ih (fun y hy => h y (by simp [hy])) b'

end Simulation
end Lib
