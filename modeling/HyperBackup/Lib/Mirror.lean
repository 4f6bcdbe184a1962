import HyperBackup.Lib.Program

/-!
# Programs that mirror others

A program mirrors another if, started in the image of a state, it does there
what the other does to the state: it delivers the same value or stops for the
same reason, and leaves the image of what the other leaves.  Two descriptions
of one program at different levels are related in this way, part by part.
-/

namespace Lib
namespace Mirror

open Program

universe u

section Mirrors

variable {ε ε' σ τ ρ α β γ : Type u} (view : σ → τ) (f : ε → ε')

/-- From the image of the state on the first program mirrors the second. -/
def Mirrors (x : EStateM ε' τ α) (y : EStateM ε σ α) (s : σ) : Prop :=
  x.run (view s) =
    match y.run s with
    | .ok a s' => .ok a (view s')
    | .error e s' => .error (f e) (view s')

variable {view f} {x : EStateM ε' τ α} {y : EStateM ε σ α} {s s' : σ}

theorem mirrors_pure (a : α) (s : σ) :
    Mirrors view f (pure a : EStateM ε' τ α) (pure a) s :=
  rfl

theorem mirrors_of_ok {a : α} (hy : y.run s = .ok a s')
    (hx : x.run (view s) = .ok a (view s')) : Mirrors view f x y s := by
  rw [Mirrors, hy, hx]

theorem Mirrors.run_eq_ok {a : α} (h : Mirrors view f x y s)
    (hy : y.run s = .ok a s') : x.run (view s) = .ok a (view s') := by
  rw [Mirrors, hy] at h
  exact h

/-- Sequences mirror each other part by part. -/
theorem mirrors_bind {g : α → EStateM ε' τ β} {h : α → EStateM ε σ β}
    (hfirst : Mirrors view f x y s)
    (hrest : ∀ a s', y.run s = .ok a s' → Mirrors view f (g a) (h a) s') :
    Mirrors view f (x >>= g) (y >>= h) s := by
  unfold Mirrors at hfirst hrest ⊢
  cases hy : y.run s with
  | ok a s' =>
      rw [hy] at hfirst
      rw [run_bind_of_ok hfirst, run_bind_of_ok hy, hrest a s' hy]
  | error e s' =>
      rw [hy] at hfirst
      rw [run_bind_of_error hfirst, run_bind_of_error hy]

/-- First parts that surely deliver values, which need not be the same. -/
theorem mirrors_bind_of_ok {x : EStateM ε' τ γ}
    {g : γ → EStateM ε' τ β} {h : α → EStateM ε σ β} {c : γ} {a : α}
    (hx : x.run (view s) = .ok c (view s')) (hy : y.run s = .ok a s')
    (hrest : Mirrors view f (g c) (h a) s') :
    Mirrors view f (x >>= g) (y >>= h) s := by
  unfold Mirrors at hrest ⊢
  rw [run_bind_of_ok hx, run_bind_of_ok hy, hrest]

/-- A first part of the mirrored program that the other does not have. -/
theorem mirrors_bind_silent {x : EStateM ε' τ β} {h : α → EStateM ε σ β} {a : α}
    (hy : y.run s = .ok a s) (hrest : Mirrors view f x (h a) s) :
    Mirrors view f x (y >>= h) s := by
  unfold Mirrors at hrest ⊢
  rw [run_bind_of_ok hy, hrest]

theorem mirrors_ofResult {ε'' : Type u} (h : ε'' → ε) (r : Except ε'' α) (s : σ) :
    Mirrors view f (ofResult (fun e => f (h e)) r) (ofResult h r) s := by
  cases r with
  | ok a =>
      rfl
  | error e =>
      rfl

/-- The same program, run on a part that both states have. -/
theorem mirrors_zoom {ε'' : Type u} {z : EStateM ε'' ρ α}
    {get : τ → ρ} {set : ρ → τ → τ} {get' : σ → ρ} {set' : ρ → σ → σ}
    {g : ε'' → ε'} {h : ε'' → ε} (hget : get (view s) = get' s)
    (hset : ∀ t, set t (view s) = view (set' t s)) (he : ∀ e, g e = f (h e)) :
    Mirrors view f (zoom get set g z) (zoom get' set' h z) s := by
  unfold Mirrors
  cases hz : z.run (get' s) with
  | ok a t =>
      rw [run_zoom_ok hz]
      dsimp only
      rw [← hset]
      exact run_zoom_ok (hget.symm ▸ hz)
  | error e t =>
      rw [run_zoom_error hz]
      dsimp only
      rw [← hset, ← he]
      exact run_zoom_error (hget.symm ▸ hz)

theorem Mirrors.outcome_eq (h : Mirrors view f x y s) :
    outcome x (view s) = (outcome y s).mapError f := by
  unfold Mirrors at h
  unfold outcome
  rw [h]
  cases y.run s with
  | ok a s' =>
      rfl
  | error e s' =>
      rfl

theorem Mirrors.stateAfter_eq (h : Mirrors view f x y s) :
    stateAfter x (view s) = view (stateAfter y s) := by
  unfold Mirrors at h
  unfold stateAfter
  rw [h]
  cases y.run s with
  | ok a s' =>
      rfl
  | error e s' =>
      rfl

end Mirrors

end Mirror
end Lib
