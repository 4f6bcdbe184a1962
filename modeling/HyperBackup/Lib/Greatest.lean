import Mathlib.Data.List.Pairwise
import Mathlib.Order.Lattice

/-!
# The element with the greatest key

`maxByKey` goes through a list and keeps the last element with the greatest
key.  Taking the first element instead finds one with the greatest key only
if the list is in a suitable order; for all lists of smaller elements at once
it does so exactly if the keys descend.
-/

namespace Lib
namespace Greatest

universe u v

variable {α : Type u} {β : Type v} [LinearOrder β] (key : α → β)

def maxByKey : List α → Option α
  | [] => none
  | a :: l => some (l.foldl (fun x y => if key y < key x then x else y) a)

/-- The result is an element with the greatest key, or nothing for the empty list. -/
def Selects (l : List α) : Option α → Prop
  | none => l = []
  | some a => a ∈ l ∧ ∀ b ∈ l, key b ≤ key a

/-- The keys descend. -/
def Descending (l : List α) : Prop :=
  l.Pairwise fun a b => key b < key a

variable {key} {l : List α}

theorem foldl_mem_and_le (a : α) (l : List α) :
    let m := l.foldl (fun x y => if key y < key x then x else y) a
    m ∈ a :: l ∧ ∀ b ∈ a :: l, key b ≤ key m := by
  induction l generalizing a with
  | nil =>
      simp
  | cons c l ih =>
      rw [List.foldl_cons]
      by_cases hlt : key c < key a
      · obtain ⟨hmem, hle⟩ := ih a
        rw [if_pos hlt]
        refine ⟨?_, ?_⟩
        · rcases List.mem_cons.mp hmem with heq | hmem
          · exact List.mem_cons.mpr (Or.inl heq)
          · exact List.mem_cons_of_mem _ (List.mem_cons_of_mem _ hmem)
        · intro b hb
          have ha := hle a List.mem_cons_self
          rcases List.mem_cons.mp hb with rfl | hb
          · exact ha
          · rcases List.mem_cons.mp hb with rfl | hb
            · exact le_trans (le_of_lt hlt) ha
            · exact hle b (List.mem_cons_of_mem _ hb)
      · obtain ⟨hmem, hle⟩ := ih c
        rw [if_neg hlt]
        refine ⟨List.mem_cons_of_mem _ hmem, ?_⟩
        intro b hb
        rcases List.mem_cons.mp hb with rfl | hb
        · exact le_trans (not_lt.mp hlt) (hle c List.mem_cons_self)
        · exact hle b hb

theorem selects_maxByKey (l : List α) :
    Selects key l (maxByKey key l) := by
  cases l with
  | nil =>
      rfl
  | cons a l =>
      exact foldl_mem_and_le a l

theorem Descending.selects_head? (h : Descending key l) :
    Selects key l l.head? := by
  cases l with
  | nil =>
      rfl
  | cons a l =>
      refine ⟨List.mem_cons_self, ?_⟩
      intro b hb
      rcases List.mem_cons.mp hb with rfl | hb
      · exact le_refl _
      · exact le_of_lt (List.rel_of_pairwise_cons h hb)

/-- If the first element is right for the list and for all that is smaller than
one of its elements, the keys descend. -/
theorem descending_of_selects
    (hdistinct : (l.map key).Nodup)
    (hfirst : Selects key l l.head?)
    (hsmaller : ∀ c ∈ l, Selects key (l.filter fun b => key b < key c)
      (l.filter fun b => key b < key c).head?) :
    Descending key l := by
  induction l with
  | nil =>
      exact List.Pairwise.nil
  | cons a l ih =>
      obtain ⟨hnew, hrest⟩ := List.nodup_cons.mp hdistinct
      have hle : ∀ b ∈ l, key b ≤ key a := fun b hb =>
        hfirst.2 b (List.mem_cons_of_mem a hb)
      have hlt : ∀ b ∈ l, key b < key a := fun b hb =>
        lt_of_le_of_ne (hle b hb) fun heq => hnew (heq ▸ List.mem_map_of_mem hb)
      have hbelow : ((a :: l).filter fun b => key b < key a) = l := by
        rw [List.filter_cons_of_neg (by simp)]
        exact List.filter_eq_self.mpr fun b hb => decide_eq_true (hlt b hb)
      refine List.Pairwise.cons hlt (ih hrest ?_ ?_)
      · have h := hsmaller a List.mem_cons_self
        rwa [hbelow] at h
      · intro c hc
        have h := hsmaller c (List.mem_cons_of_mem a hc)
        have hskip : ((a :: l).filter fun b => key b < key c) =
            l.filter fun b => key b < key c :=
          List.filter_cons_of_neg (by simpa using hle c hc)
        rwa [hskip] at h

end Greatest
end Lib
