import Mathlib.Data.List.Basic
import Mathlib.Data.List.Flatten

/-!
# Cutting a stream into pieces

A cut function says where the first piece of a list ends.  `Cuts` relates a
list to the pieces that repeated cutting gives.  A cut function is stable if a
cut before the end stays where it is when more elements come.  The pieces of a
stream can then be cut off as soon as the cut is before the end of what has
arrived, however it arrives.
-/

namespace Lib
namespace StreamCut

universe u

variable {α : Type u} (cut : List α → Nat)

/-- The pieces of a list. -/
inductive Cuts : List α → List (List α) → Prop
  | nil : Cuts [] []
  | cons {l : List α} {pieces : List (List α)} :
      l ≠ [] → Cuts (l.drop (cut l)) pieces → Cuts l (l.take (cut l) :: pieces)

/-- Each cut is in the list and not at its start, and one before the end does
not depend on what follows. -/
structure Stable : Prop where
  le_length : ∀ l, cut l ≤ l.length
  pos : ∀ l, l ≠ [] → 0 < cut l
  append : ∀ l more, cut l < l.length → cut (l ++ more) = cut l

variable {cut}
variable {l : List α} {pieces : List (List α)}

/-- Every list has pieces. -/
theorem exists_cuts (h : Stable cut) (l : List α) : ∃ pieces, Cuts cut l pieces := by
  induction hlen : l.length using Nat.strongRecOn generalizing l with
  | ind n ih =>
      by_cases hl : l = []
      · exact ⟨[], hl ▸ Cuts.nil⟩
      · have hpos := h.pos l hl
        have hle := h.le_length l
        obtain ⟨pieces, hpieces⟩ := ih (l.drop (cut l)).length
          (by rw [List.length_drop]; omega) (l.drop (cut l)) rfl
        exact ⟨_, Cuts.cons hl hpieces⟩

/-- A list has its pieces only. -/
theorem Cuts.unique {pieces' : List (List α)} (h : Cuts cut l pieces)
    (h' : Cuts cut l pieces') : pieces = pieces' := by
  induction h generalizing pieces' with
  | nil =>
      cases h' with
      | nil =>
          rfl
      | cons hne _ =>
          exact absurd rfl hne
  | cons hl _ ih =>
      cases h' with
      | nil =>
          exact absurd rfl hl
      | cons _ hrest =>
          rw [ih hrest]

theorem Cuts.flatten (h : Cuts cut l pieces) : pieces.flatten = l := by
  induction h with
  | nil =>
      rfl
  | @cons l pieces _ _ ih =>
      rw [List.flatten_cons, ih, List.take_append_drop]

/-- Every piece is what is cut from a rest of the list. -/
theorem Cuts.exists_of_mem (h : Cuts cut l pieces) {p : List α} (hp : p ∈ pieces) :
    ∃ rest, rest ≠ [] ∧ p = rest.take (cut rest) := by
  induction h with
  | nil =>
      cases hp
  | @cons l pieces hl _ ih =>
      rcases List.mem_cons.mp hp with rfl | hp
      · exact ⟨l, hl, rfl⟩
      · exact ih hp

/-- A piece that is not the last one is cut before the end. -/
theorem Cuts.exists_of_lt (h : Cuts cut l pieces) {i : Nat} (hi : i + 1 < pieces.length) :
    ∃ rest p, pieces[i]? = some p ∧ cut rest < rest.length ∧
      p = rest.take (cut rest) := by
  induction h generalizing i with
  | nil =>
      cases hi
  | @cons l pieces hl hrest ih =>
      cases i with
      | zero =>
          refine ⟨l, _, rfl, ?_, rfl⟩
          by_contra hend
          rw [List.drop_eq_nil_of_le (Nat.not_lt.mp hend)] at hrest
          cases hrest with
          | nil =>
              simp at hi
          | cons hne _ =>
              exact hne rfl
      | succ i =>
          exact ih (Nat.lt_of_succ_lt_succ hi)

/-- A cut before the end of what has arrived is the first cut of the stream. -/
theorem Cuts.cons_append (h : Stable cut) {more : List α}
    (hcut : cut l < l.length) (hrest : Cuts cut (l.drop (cut l) ++ more) pieces) :
    Cuts cut (l ++ more) (l.take (cut l) :: pieces) := by
  have hne : l ++ more ≠ [] := by
    intro hnil
    rw [(List.append_eq_nil_iff.mp hnil).1] at hcut
    exact Nat.not_lt_zero _ hcut
  have hsame := h.append l more hcut
  have hle := Nat.le_of_lt hcut
  have htake : (l ++ more).take (cut (l ++ more)) = l.take (cut l) := by
    rw [hsame, List.take_append_of_le_length hle]
  rw [← htake]
  refine Cuts.cons hne ?_
  rw [hsame, List.drop_append_of_le_length hle]
  exact hrest

/-- What is cut at its end is the last piece. -/
theorem Cuts.singleton (hl : l ≠ []) (hcut : cut l = l.length) : Cuts cut l [l] := by
  have hrest : Cuts cut (l.drop (cut l)) [] := by
    rw [hcut, List.drop_length]
    exact Cuts.nil
  have hlast := Cuts.cons hl hrest
  rwa [hcut, List.take_length] at hlast

end StreamCut
end Lib
