import Mathlib.Data.List.Sort
import Mathlib.Order.Basic

/-!
# The first elements of a stable sort

An ascending list is sorted by a key.  Elements with equal keys stay in their
order, so the result is strictly sorted by key and element together.  Hence an
element is among the first `k` of the result exactly if fewer than `k` elements
come before it, which does not speak about the algorithm any more.
-/

namespace Lib
namespace StableSort

section Ranks

variable {α : Type*} {R : α → α → Prop} [DecidableRel R] [Std.Asymm R]

/-- Where an element of a strictly sorted list stands. -/
theorem mem_take_iff {s : List α} (hs : s.Pairwise R) {a : α} (ha : a ∈ s) (k : Nat) :
    a ∈ s.take k ↔ (s.filter fun b => R b a).length < k := by
  induction s generalizing k with
  | nil =>
      cases ha
  | cons b s ih =>
      obtain ⟨hb, hs'⟩ := List.pairwise_cons.mp hs
      cases k with
      | zero =>
          simp
      | succ k =>
          rcases List.mem_cons.mp ha with rfl | hmem
          · have hnone : (a :: s).filter (fun c => R c a) = [] := by
              refine List.filter_eq_nil_iff.mpr fun c hc => ?_
              rcases List.mem_cons.mp hc with rfl | hc
              · simpa using irrefl_of R c
              · simpa using asymm_of R (hb c hc)
            simp [hnone]
          · have hne : a ≠ b := by
              rintro rfl
              exact irrefl_of R a (hb a hmem)
            rw [List.take_succ_cons, List.mem_cons, or_iff_right hne, ih hs' hmem,
              List.filter_cons_of_pos (by simpa using hb a hmem), List.length_cons,
              Nat.succ_lt_succ_iff]

end Ranks

section Keys

variable {α β : Type*} [LinearOrder α] [LinearOrder β] (key : α → β)

/-- Sorted by key, and among equal keys by element. -/
def Before (a b : α) : Prop :=
  key a < key b ∨ key a = key b ∧ a < b

instance : DecidableRel (Before key) := fun a b =>
  inferInstanceAs (Decidable (key a < key b ∨ key a = key b ∧ a < b))

instance : Std.Asymm (Before key) where
  asymm := by
    rintro a b (hab | ⟨hkey, hab⟩) (hba | ⟨hkey', hba⟩)
    · exact lt_asymm hab hba
    · exact hab.ne' hkey'
    · exact hba.ne' hkey
    · exact lt_asymm hab hba

/-- A smaller element is put before those with the same key. -/
theorem pairwise_orderedInsert {a : α} {s : List α} (hs : s.Pairwise (Before key))
    (ha : ∀ b ∈ s, a < b) :
    (s.orderedInsert (fun x y => key x ≤ key y) a).Pairwise (Before key) := by
  induction s with
  | nil =>
      simp
  | cons b s ih =>
      obtain ⟨hb, hs'⟩ := List.pairwise_cons.mp hs
      have hab := ha b List.mem_cons_self
      by_cases hkey : key a ≤ key b
      · rw [List.orderedInsert_cons, if_pos hkey]
        have hfirst : Before key a b := hkey.lt_or_eq.imp_right fun h => ⟨h, hab⟩
        refine List.pairwise_cons.mpr ⟨fun c hc => ?_, hs⟩
        rcases List.mem_cons.mp hc with rfl | hc
        · exact hfirst
        · have hle : key b ≤ key c := (hb c hc).elim le_of_lt fun h => h.1.le
          exact (hkey.trans hle).lt_or_eq.imp_right fun h =>
            ⟨h, ha c (List.mem_cons_of_mem b hc)⟩
      · rw [List.orderedInsert_cons, if_neg hkey]
        refine List.pairwise_cons.mpr
          ⟨fun c hc => ?_, ih hs' fun c hc => ha c (List.mem_cons_of_mem b hc)⟩
        rcases List.mem_cons.mp ((List.perm_orderedInsert _ a s).mem_iff.mp hc) with rfl | hc
        · exact Or.inl (not_le.mp hkey)
        · exact hb c hc

theorem pairwise_insertionSort {l : List α} (hl : l.Pairwise (· < ·)) :
    (l.insertionSort fun x y => key x ≤ key y).Pairwise (Before key) := by
  induction l with
  | nil =>
      exact List.Pairwise.nil
  | cons a l ih =>
      obtain ⟨ha, hl'⟩ := List.pairwise_cons.mp hl
      rw [List.insertionSort_cons]
      exact pairwise_orderedInsert key (ih hl') fun b hb =>
        ha b ((List.mem_insertionSort _).mp hb)

/-- An element is among the first ones exactly if few come before it. -/
theorem mem_take_insertionSort {l : List α} (hl : l.Pairwise (· < ·)) {a : α} (k : Nat) :
    a ∈ (l.insertionSort fun x y => key x ≤ key y).take k ↔
      a ∈ l ∧ (l.filter fun b => Before key b a).length < k := by
  have hperm := List.perm_insertionSort (fun x y => key x ≤ key y) l
  have hcount := (hperm.filter fun b => Before key b a).length_eq
  constructor
  · intro htake
    have hmem := List.mem_of_mem_take htake
    exact ⟨hperm.mem_iff.mp hmem,
      hcount ▸ (mem_take_iff (pairwise_insertionSort key hl) hmem k).mp htake⟩
  · rintro ⟨hmem, hfew⟩
    exact (mem_take_iff (pairwise_insertionSort key hl) (hperm.mem_iff.mpr hmem) k).mpr
      (hcount ▸ hfew)

end Keys

end StableSort
end Lib
