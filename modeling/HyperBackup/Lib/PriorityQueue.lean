import Mathlib.Data.List.Sort
import Mathlib.Data.List.Perm.Basic

/-!
# Priority queues

A queue that hands out a greatest element first.  Which one, if there are
several, is left open, and so is the order in which the elements are kept:
`PriorityQueue` is any implementation with its laws, and a result about a
program that uses a queue holds for every implementation.

The loops over a queue take one element after the other until the queue is
empty, or until an element is found that is not to be skipped.
-/

namespace Lib

universe u

/-- An implementation of queues with elements in a preorder. -/
structure PriorityQueue (α : Type u) (le : α → α → Prop) where
  Carrier : Type u
  toList : Carrier → List α
  empty : Carrier
  push : α → Carrier → Carrier
  pop : Carrier → Option (α × Carrier)
  toList_empty : toList empty = []
  toList_push : ∀ a q, (toList (push a q)).Perm (a :: toList q)
  pop_eq_none : ∀ q, pop q = none ↔ toList q = []
  perm_of_pop : ∀ {q a q'}, pop q = some (a, q') →
    (toList q).Perm (a :: toList q')
  le_of_pop : ∀ {q a q'}, pop q = some (a, q') → ∀ b ∈ toList q', le b a

namespace PriorityQueue

section Loops

variable {α : Type u} {le : α → α → Prop} (Q : PriorityQueue α le)

/-- Put elements back one after the other. -/
def pushAll (l : List α) (q : Q.Carrier) : Q.Carrier :=
  l.foldl (fun q a => Q.push a q) q

/-- The elements in the order in which they are taken, at most so many. -/
def drainUpTo : Nat → Q.Carrier → List α
  | 0, _ => []
  | fuel + 1, q =>
      match Q.pop q with
      | none => []
      | some (a, q') => a :: drainUpTo fuel q'

/-- All elements in the order in which they are taken. -/
def drain (q : Q.Carrier) : List α :=
  Q.drainUpTo (Q.toList q).length q

/-- Take elements until one is not to be skipped: the skipped ones, that one,
and what is left. -/
def popPast (skip : α → Bool) : Nat → Q.Carrier →
    List α × Option α × Q.Carrier
  | 0, q => ([], none, q)
  | fuel + 1, q =>
      match Q.pop q with
      | none => ([], none, q)
      | some (a, q') =>
          if skip a then
            let r := popPast skip fuel q'
            (a :: r.1, r.2)
          else ([], some a, q')

variable {Q} {q : Q.Carrier}

theorem length_of_pop {a : α} {q' : Q.Carrier} (h : Q.pop q = some (a, q')) :
    (Q.toList q).length = (Q.toList q').length + 1 :=
  (Q.perm_of_pop h).length_eq

theorem toList_pushAll (l : List α) (q : Q.Carrier) :
    (Q.toList (Q.pushAll l q)).Perm (l ++ Q.toList q) := by
  induction l generalizing q with
  | nil =>
      exact List.Perm.refl _
  | cons a l ih =>
      have hrest : (Q.toList (Q.pushAll l (Q.push a q))).Perm
          (l ++ a :: Q.toList q) :=
        (ih (Q.push a q)).trans ((Q.toList_push a q).append_left l)
      exact hrest.trans List.perm_middle

/-- Draining hands out every element once. -/
theorem drain_perm (q : Q.Carrier) : (Q.drain q).Perm (Q.toList q) := by
  have hfuel : ∀ n q, (Q.toList q).length = n →
      (Q.drainUpTo n q).Perm (Q.toList q) := by
    intro n
    induction n with
    | zero =>
        intro q hlen
        rw [List.eq_nil_of_length_eq_zero hlen]
        exact List.Perm.refl _
    | succ n ih =>
        intro q hlen
        cases hpop : Q.pop q with
        | none =>
            rw [(Q.pop_eq_none q).mp hpop] at hlen
            cases hlen
        | some r =>
            obtain ⟨a, q'⟩ := r
            rw [length_of_pop hpop] at hlen
            simp only [drainUpTo, hpop]
            exact ((ih q' (Nat.succ.inj hlen)).cons a).trans
              (Q.perm_of_pop hpop).symm
  exact hfuel _ q rfl

/-- If the first element is not skipped, it is the one that is found. -/
theorem popPast_of_not_skip {skip : α → Bool} {fuel : Nat}
    {a : α} {q' : Q.Carrier} (hpop : Q.pop q = some (a, q'))
    (hskip : skip a = false) :
    Q.popPast skip (fuel + 1) q = ([], some a, q') := by
  simp [popPast, hpop, hskip]

/-- A queue of which nothing is skipped hands out a greatest element. -/
theorem popPast_of_forall (skip : α → Bool) (hne : Q.toList q ≠ [])
    (hskip : ∀ a ∈ Q.toList q, skip a = false) :
    ∃ a q', Q.popPast skip (Q.toList q).length q = ([], some a, q') ∧
      (Q.toList q).Perm (a :: Q.toList q') ∧ ∀ b ∈ Q.toList q', le b a := by
  cases hpop : Q.pop q with
  | none =>
      exact absurd ((Q.pop_eq_none q).mp hpop) hne
  | some r =>
      obtain ⟨a, q'⟩ := r
      have hperm := Q.perm_of_pop hpop
      refine ⟨a, q', ?_, hperm, Q.le_of_pop hpop⟩
      rw [length_of_pop hpop]
      exact popPast_of_not_skip hpop
        (hskip a (hperm.mem_iff.mpr List.mem_cons_self))

end Loops

section Sorted

variable {α : Type u} (le : α → α → Prop) [DecidableRel le]
variable [Std.Total le] [IsTrans α le]

theorem pairwise_orderedInsert (a : α) {l : List α}
    (h : l.Pairwise fun a b => le b a) :
    (l.orderedInsert (fun a b => le b a) a).Pairwise fun a b => le b a := by
  have htotal : Std.Total fun a b => le b a := ⟨fun a b => Std.Total.total b a⟩
  have htrans : IsTrans α fun a b => le b a :=
    ⟨fun a b c hab hbc => IsTrans.trans c b a hbc hab⟩
  exact h.orderedInsert a l

/-- Queues that are kept as sorted lists. -/
def sorted : PriorityQueue α le where
  Carrier := { l : List α // l.Pairwise fun a b => le b a }
  toList := fun q => q.1
  empty := ⟨[], List.Pairwise.nil⟩
  push := fun a q => ⟨q.1.orderedInsert (fun a b => le b a) a,
    pairwise_orderedInsert le a q.2⟩
  pop := fun q =>
    match q with
    | ⟨[], _⟩ => none
    | ⟨a :: l, h⟩ => some (a, ⟨l, h.of_cons⟩)
  toList_empty := rfl
  toList_push := fun a q => List.perm_orderedInsert _ a q.1
  pop_eq_none := by
    rintro ⟨l, h⟩
    cases l with
    | nil => simp
    | cons a l => simp
  perm_of_pop := by
    rintro ⟨l, h⟩ a q' hpop
    cases l with
    | nil => cases hpop
    | cons b l =>
        cases hpop
        exact List.Perm.refl _
  le_of_pop := by
    rintro ⟨l, h⟩ a q' hpop
    cases l with
    | nil => cases hpop
    | cons b l =>
        cases hpop
        exact fun c hc => List.rel_of_pairwise_cons h hc

end Sorted

end PriorityQueue

end Lib
