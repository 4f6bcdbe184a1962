import Mathlib.Data.Fintype.EquivFin
import Mathlib.Data.Option.Basic

/-!
# Following links

`next` gives every item at most one successor.  A walk follows the links from
an item; it ends if some number of steps leads nowhere.  Over finitely many
items a walk ends exactly if it never returns to an item it has passed.
-/

namespace Lib
namespace Walk

universe u

variable {α : Type u} (next : α → Option α)

/-- Where a number of steps leads. -/
def walk : Nat → α → Option α
  | 0, a => some a
  | n + 1, a => (next a).bind (walk n)

/-- The walk from an item comes to an end. -/
def Ends (a : α) : Prop :=
  ∃ n, walk next n a = none

/-- The walk from an item never comes to the same item twice. -/
def NoReturn (a : α) : Prop :=
  ∀ i j b, walk next i a = some b → walk next j a = some b → i = j

variable {next} {a b : α}

theorem walk_add (m n : Nat) (a : α) :
    walk next (m + n) a = (walk next m a).bind (walk next n) := by
  induction m generalizing a with
  | zero =>
      rw [Nat.zero_add, walk, Option.bind_some]
  | succ m ih =>
      rw [Nat.succ_add, walk, walk]
      cases next a with
      | none =>
          rfl
      | some b =>
          exact ih b

/-- Where a walk has led nowhere it stays nowhere. -/
theorem walk_eq_none_of_le {m n : Nat} (hle : m ≤ n)
    (h : walk next m a = none) : walk next n a = none := by
  obtain ⟨k, rfl⟩ := Nat.exists_eq_add_of_le hle
  rw [walk_add, h, Option.bind_none]

theorem ends_of_next_eq_none (h : next a = none) : Ends next a :=
  ⟨1, by rw [walk, h, Option.bind_none]⟩

theorem ends_iff_of_next_eq_some (h : next a = some b) :
    Ends next a ↔ Ends next b := by
  constructor
  · rintro ⟨n, hn⟩
    have hlater : walk next (n + 1) a = none :=
      walk_eq_none_of_le (Nat.le_succ n) hn
    rw [walk, h, Option.bind_some] at hlater
    exact ⟨n, hlater⟩
  · rintro ⟨n, hn⟩
    exact ⟨n + 1, by rw [walk, h, Option.bind_some, hn]⟩

/-- A walk that ends is taken step by step. -/
@[elab_as_elim]
theorem Ends.induction {motive : (a : α) → Ends next a → Prop}
    (last : ∀ a (h : next a = none), motive a (ends_of_next_eq_none h))
    (step : ∀ a b (h : next a = some b) (hb : Ends next b), motive b hb →
      motive a ((ends_iff_of_next_eq_some h).mpr hb))
    {a : α} (h : Ends next a) : motive a h := by
  obtain ⟨n, hn⟩ := id h
  induction n generalizing a with
  | zero =>
      cases hn
  | succ n ih =>
      cases hnext : next a with
      | none =>
          exact last a hnext
      | some b =>
          rw [walk, hnext, Option.bind_some] at hn
          exact step a b hnext ⟨n, hn⟩ (ih ⟨n, hn⟩ hn)

/-- A cycle can be gone round any number of times. -/
theorem walk_mul {d : Nat} (h : walk next d b = some b) (k : Nat) :
    walk next (k * d) b = some b := by
  induction k with
  | zero =>
      rw [Nat.zero_mul, walk]
  | succ k ih =>
      rw [Nat.succ_mul, walk_add, ih, Option.bind_some, h]

theorem noReturn_of_ends (h : Ends next a) : NoReturn next a := by
  obtain ⟨n, hn⟩ := h
  -- from a second visit on the walk repeats itself
  have hnever : ∀ i j b, i < j → walk next i a = some b →
      walk next j a ≠ some b := by
    intro i j b hlt hi hj
    obtain ⟨d, rfl⟩ := Nat.exists_eq_add_of_le (Nat.le_of_lt hlt)
    have hcycle : walk next d b = some b := by
      rw [walk_add, hi, Option.bind_some] at hj
      exact hj
    have hround : walk next (i + n * d) a = some b := by
      rw [walk_add, hi, Option.bind_some, walk_mul hcycle n]
    have hle : n ≤ i + n * d := by
      have hd : n * 1 ≤ n * d := Nat.mul_le_mul_left n (by omega)
      omega
    rw [walk_eq_none_of_le hle hn] at hround
    cases hround
  intro i j b hi hj
  rcases Nat.lt_trichotomy i j with hlt | heq | hlt
  · exact absurd hj (hnever i j b hlt hi)
  · exact heq
  · exact absurd hi (hnever j i b hlt hj)

theorem ends_iff_noReturn [Finite α] :
    Ends next a ↔ NoReturn next a := by
  constructor
  · exact noReturn_of_ends
  · intro h
    by_contra hends
    have hsome : ∀ n, ∃ b, walk next n a = some b := fun n =>
      Option.ne_none_iff_exists'.mp fun hn => hends ⟨n, hn⟩
    choose visited hvisited using hsome
    refine not_injective_infinite_finite visited fun i j heq => ?_
    exact h i j (visited i) (hvisited i) (heq ▸ hvisited j)

end Walk
end Lib
