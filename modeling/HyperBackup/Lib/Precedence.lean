import HyperBackup.Lib.HashMap
import Mathlib.Data.List.Nodup

/-!
# What stands in front in a list

In a list without duplicates one element stands in front of another, or behind
it.  The first elements of the list are those with few in front of them, the
first element with some key is the one with none of that key in front of it,
and a stable sort puts in front what is less, or what was in front already.

The last part is about maps that are filled from a list, with the first element
of every key or with all of them.
-/

namespace Lib
namespace Precedence

section Front

variable {α : Type} {l pre post : List α} {v w : α}

/-- One element stands in front of another. -/
def InFront (l : List α) (w v : α) : Prop :=
  [w, v].Sublist l

instance [DecidableEq α] (l : List α) (w v : α) : Decidable (InFront l w v) :=
  inferInstanceAs (Decidable (List.Sublist _ _))

theorem inFront_reverse_iff : InFront l.reverse w v ↔ InFront l v w := by
  unfold InFront
  rw [← List.reverse_sublist]
  simp

theorem InFront.mem_left (h : InFront l w v) : w ∈ l :=
  h.subset List.mem_cons_self

/-- What stands in front of an element. -/
theorem inFront_append_iff (h : (pre ++ v :: post).Nodup) :
    InFront (pre ++ v :: post) w v ↔ w ∈ pre := by
  obtain ⟨_, hpost, hdisjoint⟩ := List.nodup_append'.mp h
  have hv : v ∉ post := (List.nodup_cons.mp hpost).1
  have hpre : v ∉ pre := fun hmem => hdisjoint hmem List.mem_cons_self
  constructor
  · intro hsub
    obtain ⟨front, back, heq, hfront, hback⟩ := List.sublist_append_iff.mp hsub
    cases front with
    | nil =>
        obtain rfl : [w, v] = back := heq
        cases hback with
        | cons _ hrest =>
            exact absurd (hrest.subset (List.mem_cons_of_mem _ List.mem_cons_self)) hv
        | cons_cons _ hrest =>
            exact absurd (hrest.subset List.mem_cons_self) hv
    | cons first front =>
        obtain ⟨rfl, _⟩ := List.cons.inj heq
        exact hfront.subset List.mem_cons_self
  · intro hw
    have hsub := (List.singleton_sublist.mpr hw).append
      (List.singleton_sublist.mpr (List.mem_cons_self (a := v) (l := post)))
    exact hsub

/-- Two elements stand one in front of the other. -/
theorem inFront_or (hw : w ∈ l) (hv : v ∈ l) (hne : w ≠ v) :
    InFront l w v ∨ InFront l v w := by
  obtain ⟨pre, post, rfl⟩ := List.append_of_mem hv
  rcases List.mem_append.mp hw with hpre | hpost
  · left
    exact (List.singleton_sublist.mpr hpre).append
      (List.singleton_sublist.mpr List.mem_cons_self)
  · right
    have hrest : w ∈ post := (List.mem_cons.mp hpost).resolve_left hne
    exact (List.Sublist.cons_cons v (List.singleton_sublist.mpr hrest)).trans
      (List.sublist_append_right pre _)

/-- An element does not stand in front of what stands in front of it. -/
theorem InFront.asymm (hl : l.Nodup) (h : InFront l w v) : ¬ InFront l v w := by
  intro h'
  obtain ⟨pre, post, rfl⟩ := List.append_of_mem h.mem_left
  have hv := (inFront_append_iff hl).mp h'
  obtain ⟨front, back, rfl⟩ := List.append_of_mem hv
  rw [List.append_assoc, List.cons_append] at hl h
  have hw := (inFront_append_iff hl).mp h
  have hw' : w ∈ v :: (back ++ w :: post) :=
    List.mem_cons_of_mem v (List.mem_append_right back List.mem_cons_self)
  exact (List.nodup_append'.mp hl).2.2 hw hw'

theorem InFront.ne (hl : l.Nodup) (h : InFront l w v) : w ≠ v := by
  rintro rfl
  exact h.asymm hl h

/-- The first elements have few elements in front of them. -/
theorem mem_take_iff [DecidableEq α] (hl : l.Nodup) (hv : v ∈ l) {n : Nat} :
    v ∈ l.take n ↔ (l.filter fun w => InFront l w v).length < n := by
  obtain ⟨pre, post, rfl⟩ := List.append_of_mem hv
  have hdisjoint := (List.nodup_append'.mp hl).2.2
  have hpre : pre.filter (fun w => InFront (pre ++ v :: post) w v) = pre := by
    rw [List.filter_eq_self]
    intro w hw
    exact decide_eq_true ((inFront_append_iff hl).mpr hw)
  have hpost : (v :: post).filter (fun w => InFront (pre ++ v :: post) w v) = [] := by
    rw [List.filter_eq_nil_iff]
    intro w hw hfront
    exact hdisjoint ((inFront_append_iff hl).mp (of_decide_eq_true hfront)) hw
  rw [List.filter_append, hpre, hpost, List.append_nil, List.take_append]
  constructor
  · intro h
    by_contra hle
    have hzero : n - pre.length = 0 := by omega
    rw [hzero, List.take_zero, List.append_nil] at h
    exact hdisjoint (List.mem_of_mem_take h) List.mem_cons_self
  · intro hlt
    obtain ⟨k, hk⟩ : ∃ k, n - pre.length = k + 1 := ⟨n - pre.length - 1, by omega⟩
    rw [hk, List.take_succ_cons]
    exact List.mem_append_right _ List.mem_cons_self

/-- The first element with its key. -/
theorem find?_eq_some_iff {κ : Type} [DecidableEq κ] {key : α → κ} (hl : l.Nodup)
    (hv : v ∈ l) :
    (l.find? fun w => key w = key v) = some v ↔
      ∀ w, InFront l w v → key w ≠ key v := by
  rw [List.find?_eq_some_iff_append]
  constructor
  · rintro ⟨_, pre, post, rfl, hnone⟩ w hw hkey
    have hmem := hnone w ((inFront_append_iff hl).mp hw)
    rw [decide_eq_true hkey] at hmem
    cases hmem
  · intro hnone
    obtain ⟨pre, post, rfl⟩ := List.append_of_mem hv
    refine ⟨decide_eq_true rfl, pre, post, rfl, ?_⟩
    intro w hw
    rw [decide_eq_false (hnone w ((inFront_append_iff hl).mpr hw))]
    rfl

/-- A stable sort puts in front what is less, and among equals what was. -/
theorem inFront_mergeSort_iff {le : α → α → Bool}
    (trans : ∀ a b c, le a b → le b c → le a c) (total : ∀ a b, le a b || le b a)
    (hl : l.Nodup) (hw : w ∈ l) (hv : v ∈ l) :
    InFront (l.mergeSort le) w v ↔
      le v w = false ∨ (le w v = true ∧ InFront l w v) := by
  have hsorted : (l.mergeSort le).Nodup := (List.mergeSort_perm l le).nodup_iff.mpr hl
  have hle : ∀ {a b}, InFront (l.mergeSort le) a b → le a b = true := by
    intro a b h
    have hpair : [a, b].Pairwise fun a b => le a b = true :=
      @List.Pairwise.sublist _ [a, b] _ _ h (List.pairwise_mergeSort trans total l)
    exact (List.pairwise_cons.mp hpair).1 b List.mem_cons_self
  have hstable : ∀ {a b}, le a b = true → InFront l a b →
      InFront (l.mergeSort le) a b :=
    fun hab h => List.pair_sublist_mergeSort trans total hab h
  constructor
  · intro h
    by_cases hback : le v w = true
    · refine Or.inr ⟨hle h, ?_⟩
      refine (inFront_or hw hv (h.ne hsorted)).resolve_right ?_
      intro h'
      exact h.asymm hsorted (hstable hback h')
    · exact Or.inl (Bool.not_eq_true _ ▸ hback)
  · rintro (hback | ⟨hab, h⟩)
    · have hne : w ≠ v := by
        rintro rfl
        have hrefl := total w w
        rw [hback] at hrefl
        cases hrefl
      refine (inFront_or (List.mem_mergeSort.mpr hw) (List.mem_mergeSort.mpr hv)
        hne).resolve_right ?_
      intro h'
      rw [hle h'] at hback
      cases hback
    · exact hstable hab h

end Front

section Groups

variable {α κ β : Type} [DecidableEq κ] {l : List α} {key : α → κ} {k : κ}

/-- The first element of every key. -/
def firstOfEach (key : α → κ) (value : α → β) (l : List α) : HashMap κ β :=
  l.foldl (fun m v => HashMap.insertIfNew m (key v) (value v)) ∅

/-- All elements of every key. -/
def groupBy (key : α → κ) (l : List α) : HashMap κ (List α) :=
  l.foldl (fun m v => m.insert (key v) ((m.lookup (key v)).getD [] ++ [v])) ∅

theorem lookup_insertIfNew (m : HashMap κ β) (k' : κ) (b : β) :
    (HashMap.insertIfNew m k' b).lookup k =
      (m.lookup k).or (if k = k' then some b else none) := by
  unfold HashMap.insertIfNew
  cases hk' : m.lookup k' with
  | some c =>
      by_cases h : k = k'
      · rw [h, hk']
        rfl
      · rw [if_neg h, Option.or_none]
  | none =>
      simp only [HashMap.lookup_insert_of]
      by_cases h : k = k'
      · rw [if_pos h, if_pos h, h, hk']
        rfl
      · rw [if_neg h, if_neg h, Option.or_none]

theorem lookup_firstOfEach (key : α → κ) (value : α → β) (l : List α) (k : κ) :
    (firstOfEach key value l).lookup k =
      (l.find? fun v => key v = k).map value := by
  induction l using List.reverseRecOn with
  | nil =>
      rfl
  | append_singleton l v ih =>
      rw [firstOfEach, List.foldl_concat, ← firstOfEach, lookup_insertIfNew, ih,
        List.find?_append, Option.map_or]
      by_cases h : k = key v
      · rw [if_pos h, List.find?_singleton, decide_eq_true h.symm]
        rfl
      · rw [if_neg h, List.find?_singleton, decide_eq_false (Ne.symm h)]
        rfl

theorem lookup_groupBy (key : α → κ) (l : List α) (k : κ) :
    (groupBy key l).lookup k =
      if (l.filter fun v => key v = k) = [] then none
      else some (l.filter fun v => key v = k) := by
  induction l using List.reverseRecOn with
  | nil =>
      rfl
  | append_singleton l v ih =>
      have hgroup : groupBy key (l ++ [v]) = (groupBy key l).insert (key v)
          (((groupBy key l).lookup (key v)).getD [] ++ [v]) := by
        rw [groupBy, List.foldl_concat, ← groupBy]
      rw [hgroup, HashMap.lookup_insert_of, List.filter_append]
      by_cases h : k = key v
      · obtain rfl := h
        have hfilter : [v].filter (fun w => key w = key v) = [v] :=
          List.filter_cons_of_pos (decide_eq_true rfl)
        rw [if_pos rfl, hfilter, if_neg (by simp), ih]
        split
        · rename_i hnil
          rw [hnil]
          rfl
        · rfl
      · have hfilter : [v].filter (fun w => key w = k) = [] :=
          List.filter_cons_of_neg (by rw [decide_eq_false (Ne.symm h)]; exact Bool.false_ne_true)
        rw [if_neg h, hfilter, List.append_nil, ih]

end Groups

end Precedence
end Lib
