import Mathlib.Data.List.Basic
import Mathlib.Data.List.Pairwise

/-!
# Keys in the order of their last use

A history lists uses of keys, oldest first.  An order list is least recent
first if a key stands before another one only when its last use is earlier.
A program keeps such a list by moving a key to the end whenever it is used;
keys may leave the list at any time.
-/

namespace Lib
namespace Recency

universe u

variable {κ : Type u} [DecidableEq κ]

/-- The number of uses up to and including the last one of the key; zero if there is none. -/
def lastUse (history : List κ) (key : κ) : Nat :=
  history.length - history.reverse.idxOf key

/-- Keys stand in the order of their last uses. -/
def LeastRecentFirst (history order : List κ) : Prop :=
  order.Pairwise fun a b => lastUse history a < lastUse history b

theorem lastUse_concat (history : List κ) (used key : κ) :
    lastUse (history ++ [used]) key =
      if used = key then history.length + 1 else lastUse history key := by
  have hreverse : (history ++ [used]).reverse = used :: history.reverse := by
    simp
  unfold lastUse
  rw [hreverse, List.length_append, List.length_singleton]
  by_cases h : used = key
  · rw [if_pos h, h, List.idxOf_cons_self]
    rfl
  · rw [if_neg h, List.idxOf_cons_ne _ h]
    omega

theorem lastUse_le (history : List κ) (key : κ) :
    lastUse history key ≤ history.length :=
  Nat.sub_le _ _

variable {history order order' : List κ} {key : κ}

theorem LeastRecentFirst.nodup (h : LeastRecentFirst history order) :
    order.Nodup :=
  h.imp fun hlt heq => by simp [heq] at hlt

theorem LeastRecentFirst.sublist
    (h : LeastRecentFirst history order) (hsub : order'.Sublist order) :
    LeastRecentFirst history order' :=
  List.Pairwise.sublist hsub h

/-- A use of a key that is not listed leaves the order as it is. -/
theorem LeastRecentFirst.skip
    (h : LeastRecentFirst history order) (hkey : key ∉ order) :
    LeastRecentFirst (history ++ [key]) order := by
  refine List.Pairwise.imp_of_mem ?_ h
  intro a b ha hb hlt
  have hne : ∀ {c}, c ∈ order → key ≠ c := fun hc heq => hkey (heq ▸ hc)
  rwa [lastUse_concat, lastUse_concat, if_neg (hne ha), if_neg (hne hb)]

/-- A used key that comes to the end keeps the order. -/
theorem LeastRecentFirst.touch
    (h : LeastRecentFirst history order) (hkey : key ∉ order) :
    LeastRecentFirst (history ++ [key]) (order ++ [key]) := by
  refine List.pairwise_append.mpr
    ⟨h.skip hkey, List.pairwise_singleton _ _, ?_⟩
  intro a ha b hb
  obtain rfl := List.mem_singleton.mp hb
  have hne : b ≠ a := fun heq => hkey (heq ▸ ha)
  rw [lastUse_concat, lastUse_concat, if_neg hne, if_pos rfl]
  exact Nat.lt_succ_of_le (lastUse_le history a)

end Recency
end Lib
