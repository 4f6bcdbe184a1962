import Mathlib.Data.List.Basic

/-!
# Words that commute

Two lists give the same list in both orders exactly if both are repetitions
of one list.
-/

namespace Lib
namespace Words

universe u

variable {α : Type u}

/-- The word repeated a number of times. -/
def power (w : List α) (n : Nat) : List α :=
  (List.replicate n w).flatten

@[simp] theorem power_one (w : List α) : power w 1 = w := by
  simp [power]

theorem power_add (w : List α) (m n : Nat) :
    power w (m + n) = power w m ++ power w n := by
  simp [power, ← List.replicate_append_replicate]

/-- Powers of one word commute. -/
theorem power_append_comm (w : List α) (m n : Nat) :
    power w m ++ power w n = power w n ++ power w m := by
  rw [← power_add, ← power_add, Nat.add_comm]

/-- Commuting words are powers of one word. -/
theorem exists_power_of_append_comm :
    ∀ (n : Nat) (u v : List α), u.length + v.length ≤ n → u ++ v = v ++ u →
      ∃ w i j, u = power w i ∧ v = power w j := by
  intro n
  induction n with
  | zero =>
      intro u v hn _
      have hu : u = [] := List.length_eq_zero_iff.mp (by omega)
      have hv : v = [] := List.length_eq_zero_iff.mp (by omega)
      exact ⟨[], 0, 0, hu, hv⟩
  | succ n ih =>
      intro u v hn hcomm
      rcases Nat.eq_zero_or_pos u.length with hu | hu
      · exact ⟨v, 0, 1, List.length_eq_zero_iff.mp hu, (power_one v).symm⟩
      rcases Nat.eq_zero_or_pos v.length with hv | hv
      · exact ⟨u, 1, 0, (power_one u).symm, List.length_eq_zero_iff.mp hv⟩
      -- The shorter word is a prefix of the longer one; the rest commutes with it.
      rcases Nat.le_total u.length v.length with hle | hle
      · obtain ⟨v', rfl⟩ : u <+: v :=
          List.prefix_of_prefix_length_le (List.prefix_append u v)
            (hcomm ▸ List.prefix_append v u) hle
        have hcomm' : u ++ v' = v' ++ u := by
          rw [List.append_assoc] at hcomm
          exact List.append_cancel_left hcomm
        obtain ⟨w, i, j, hui, hvj⟩ := ih u v' (by simp at hn; omega) hcomm'
        exact ⟨w, i, i + j, hui, by rw [power_add, ← hui, ← hvj]⟩
      · obtain ⟨u', rfl⟩ : v <+: u :=
          List.prefix_of_prefix_length_le (hcomm ▸ List.prefix_append v u)
            (List.prefix_append u v) hle
        have hcomm' : u' ++ v = v ++ u' := by
          rw [List.append_assoc] at hcomm
          exact List.append_cancel_left hcomm
        obtain ⟨w, i, j, hui, hvj⟩ := ih u' v (by simp at hn; omega) hcomm'
        exact ⟨w, j + i, j, by rw [power_add, ← hui, ← hvj], hvj⟩

theorem append_comm_iff (u v : List α) :
    u ++ v = v ++ u ↔ ∃ w i j, u = power w i ∧ v = power w j := by
  constructor
  · exact exists_power_of_append_comm _ u v (Nat.le_refl _)
  · rintro ⟨w, i, j, rfl, rfl⟩
    exact power_append_comm w i j

end Words
end Lib
