import Mathlib.Algebra.GroupWithZero.Nat
import Mathlib.Data.List.AList
import Mathlib.Data.List.Induction

/-!
# Finite maps with unspecified iteration order

A hash map is an association list with distinct keys (`AList`); lookup,
insertion and removal are those of Mathlib.  What Mathlib does not have is
iteration: a hash map lists its entries in an order that the program cannot
rely on.  `IterOrder` makes that order an explicit argument of every function
that iterates, so that a result about such a function holds for every order.
-/

namespace Lib

universe u v

/-- A finite map from keys to values. -/
abbrev HashMap (κ : Type u) (β : Type v) : Type (max u v) :=
  AList fun _ : κ => β

/-- A way to arrange the entries of a map or the elements of a set. -/
structure IterOrder (α : Type u) where
  arrange : List α → List α
  perm : ∀ l, (arrange l).Perm l

namespace IterOrder

variable {α : Type u}

/-- The order in which the entries happen to be stored. -/
def asStored : IterOrder α where
  arrange := fun l => l
  perm := fun l => List.Perm.refl l

@[simp] theorem mem_arrange
    (o : IterOrder α) (l : List α) (a : α) :
    a ∈ o.arrange l ↔ a ∈ l :=
  (o.perm l).mem_iff

end IterOrder

namespace HashMap

section Basic

variable {κ : Type u} {β : Type v}

/-- The entries of a map as pairs. -/
def toList (m : HashMap κ β) : List (κ × β) :=
  m.entries.map fun e => (e.1, e.2)

/-- The keys of the listed entries are distinct. -/
theorem nodup_map_fst_toList (m : HashMap κ β) :
    ((toList m).map Prod.fst).Nodup := by
  have hkeys : (toList m).map Prod.fst = m.keys := by
    simp [toList, AList.keys, List.keys, Function.comp_def]
  rw [hkeys]
  exact m.keys_nodup

variable [DecidableEq κ]

/-- Replace the value under a key, if there is one. -/
def modify (m : HashMap κ β) (k : κ) (f : β → β) : HashMap κ β :=
  match m.lookup k with
  | some b => m.insert k (f b)
  | none => m

/-- Insert a value unless the key has one. -/
def insertIfNew (m : HashMap κ β) (k : κ) (b : β) : HashMap κ β :=
  match m.lookup k with
  | some _ => m
  | none => m.insert k b

theorem mem_toList {m : HashMap κ β} {k : κ} {b : β} :
    (k, b) ∈ toList m ↔ m.lookup k = some b := by
  rw [toList, List.mem_map]
  constructor
  · rintro ⟨e, he, heq⟩
    cases heq
    exact AList.mem_lookup_iff.mpr he
  · intro h
    exact ⟨⟨k, b⟩, AList.mem_lookup_iff.mp h, rfl⟩

theorem lookup_insert_of
    (m : HashMap κ β) (k k' : κ) (b : β) :
    (m.insert k b).lookup k' =
      if k' = k then some b else m.lookup k' := by
  by_cases h : k' = k
  · subst h
    simp
  · simp [h, AList.lookup_insert_ne h]

theorem lookup_erase_of
    (m : HashMap κ β) (k k' : κ) :
    (m.erase k).lookup k' =
      if k' = k then none else m.lookup k' := by
  by_cases h : k' = k
  · subst h
    simp
  · simp [h, AList.lookup_erase_ne h]

/-- A key without a value is not there to be erased. -/
theorem erase_of_lookup {m : HashMap κ β} {k : κ} (h : m.lookup k = none) : m.erase k = m :=
  AList.ext (List.kerase_of_notMem_keys (AList.lookup_eq_none.mp h))

/-- What is found after an insertion is what was inserted, or it was there before. -/
theorem lookup_insert_eq_some {m : HashMap κ β} {k k' : κ} {b b' : β} :
    (m.insert k b).lookup k' = some b' ↔
      k' = k ∧ b' = b ∨ k' ≠ k ∧ m.lookup k' = some b' := by
  rw [lookup_insert_of]
  by_cases h : k' = k
  · simp [h, eq_comm]
  · simp [h]

theorem lookup_erase_eq_some {m : HashMap κ β} {k k' : κ} {b' : β} :
    (m.erase k).lookup k' = some b' ↔ k' ≠ k ∧ m.lookup k' = some b' := by
  rw [lookup_erase_of]
  by_cases h : k' = k
  · simp [h]
  · simp [h]

/-- Modifying a value changes that value and nothing else. -/
theorem lookup_modify
    (m : HashMap κ β) (k k' : κ) (f : β → β) :
    (modify m k f).lookup k' =
      if k' = k then (m.lookup k).map f else m.lookup k' := by
  unfold modify
  cases hk : m.lookup k with
  | none =>
      by_cases h : k' = k
      · subst h
        simp [hk]
      · simp [h]
  | some b =>
      simp [lookup_insert_of]

/-- Insert pairs one after the other. -/
def insertAll (m : HashMap κ β) (l : List (κ × β)) : HashMap κ β :=
  l.foldl (fun m e => m.insert e.1 e.2) m

theorem insertAll_append (m : HashMap κ β) (l l' : List (κ × β)) :
    insertAll m (l ++ l') = insertAll (insertAll m l) l' :=
  List.foldl_append

/-- Build a map from pairs; the last pair of a key counts. -/
def collect (l : List (κ × β)) : HashMap κ β :=
  insertAll ∅ l

theorem collect_concat (l : List (κ × β)) (e : κ × β) :
    collect (l ++ [e]) = (collect l).insert e.1 e.2 :=
  insertAll_append ∅ l [e]

/-- A collected map has exactly the keys of the pairs. -/
theorem isSome_lookup_collect (l : List (κ × β)) (k : κ) :
    ((collect l).lookup k).isSome ↔ k ∈ l.map Prod.fst := by
  induction l using List.reverseRecOn with
  | nil =>
      simp [collect, insertAll]
  | append_singleton l e ih =>
      rw [collect_concat, lookup_insert_of, List.map_append, List.mem_append]
      by_cases h : k = e.1
      · simp [h]
      · rw [if_neg h, ih]
        simp [h]

theorem mem_of_lookup_collect {l : List (κ × β)} {k : κ} {b : β} :
    (collect l).lookup k = some b → (k, b) ∈ l := by
  induction l using List.reverseRecOn with
  | nil =>
      simp [collect, insertAll]
  | append_singleton l e ih =>
      rw [collect_concat, lookup_insert_of, List.mem_append]
      intro h
      by_cases hk : k = e.1
      · rw [if_pos hk, Option.some.injEq] at h
        right
        simp [hk, ← h]
      · rw [if_neg hk] at h
        exact Or.inl (ih h)

/-- Pairs that give a key one value lead to that value. -/
theorem lookup_collect_of_forall {l : List (κ × β)} {k : κ} {b : β}
    (hk : k ∈ l.map Prod.fst) (h : ∀ b', (k, b') ∈ l → b' = b) :
    (collect l).lookup k = some b := by
  obtain ⟨b', hb'⟩ :=
    Option.isSome_iff_exists.mp ((isSome_lookup_collect l k).mpr hk)
  rw [hb', h b' (mem_of_lookup_collect hb')]

/-- Change every value. -/
def mapValues (f : β → β) (m : HashMap κ β) : HashMap κ β :=
  collect ((toList m).map fun e => (e.1, f e.2))

theorem lookup_mapValues (f : β → β) (m : HashMap κ β) (k : κ) :
    (mapValues f m).lookup k = (m.lookup k).map f := by
  have hmem : ∀ b', (k, b') ∈ (toList m).map (fun e => (e.1, f e.2)) ↔
      ∃ b, m.lookup k = some b ∧ f b = b' := by
    intro b'
    rw [List.mem_map]
    constructor
    · rintro ⟨⟨k', b⟩, he, heq⟩
      obtain ⟨rfl, rfl⟩ := Prod.mk.inj heq
      exact ⟨b, mem_toList.mp he, rfl⟩
    · rintro ⟨b, hb, rfl⟩
      exact ⟨(k, b), mem_toList.mpr hb, rfl⟩
  cases hk : m.lookup k with
  | some b =>
      refine lookup_collect_of_forall
        (List.mem_map_of_mem ((hmem (f b)).mpr ⟨b, hk, rfl⟩)) fun b' hb' => ?_
      obtain ⟨c, hc, rfl⟩ := (hmem b').mp hb'
      rw [Option.some.inj (hk.symm.trans hc)]
  | none =>
      cases hmapped : (mapValues f m).lookup k with
      | none =>
          rfl
      | some b' =>
          obtain ⟨b, hb, -⟩ := (hmem b').mp (mem_of_lookup_collect hmapped)
          rw [hk] at hb
          cases hb

/-- The entries that satisfy a condition. -/
def retain (p : κ → β → Bool) (m : HashMap κ β) : HashMap κ β where
  entries := m.entries.filter fun e => p e.1 e.2
  nodupKeys := m.nodupKeys.sublist List.filter_sublist

theorem lookup_retain_eq_some {p : κ → β → Bool} {m : HashMap κ β} {k : κ} {b : β} :
    (retain p m).lookup k = some b ↔ m.lookup k = some b ∧ p k b := by
  have hretained : (retain p m).lookup k = some b ↔
      (⟨k, b⟩ : Sigma fun _ => β) ∈ (retain p m).entries :=
    AList.mem_lookup_iff
  have hkept : m.lookup k = some b ↔ (⟨k, b⟩ : Sigma fun _ => β) ∈ m.entries :=
    AList.mem_lookup_iff
  rw [hretained, hkept]
  exact List.mem_filter

end Basic

section Totals

variable {κ : Type u} {β : Type v}

/-- The sum of a weight over all entries. -/
def total (weight : β → Nat) (m : HashMap κ β) : Nat :=
  (m.entries.map fun e => weight e.2).sum

@[simp] theorem total_empty (weight : β → Nat) :
    total weight (∅ : HashMap κ β) = 0 := by
  rfl

variable [DecidableEq κ]

/-- A new key adds its weight. -/
theorem total_insert
    {m : HashMap κ β} {k : κ} (hk : m.lookup k = none)
    (weight : β → Nat) (b : β) :
    total weight (m.insert k b) = weight b + total weight m := by
  have hmem : k ∉ m := AList.lookup_eq_none.mp hk
  unfold total
  rw [AList.entries_insert_of_notMem hmem, List.map_cons, List.sum_cons]

/-- A key that leaves takes its weight with it. -/
theorem total_erase
    {m : HashMap κ β} {k : κ} {b : β}
    (hk : m.lookup k = some b) (weight : β → Nat) :
    total weight (m.erase k) + weight b = total weight m := by
  have hmem : k ∈ m.entries.keys :=
    AList.lookup_isSome.mp (by simp [hk])
  obtain ⟨b', before, after, hbefore, hentries, herase⟩ :=
    List.exists_of_kerase hmem
  have hb : b' = b := by
    have hlookup : (⟨k, b'⟩ : Sigma fun _ => β) ∈ m.entries := by
      simp [hentries]
    exact Option.some.inj
      ((AList.mem_lookup_iff.mpr hlookup).symm.trans hk)
  subst hb
  have hafter : (m.erase k).entries = before ++ after := herase
  simp only [total, hafter, hentries, List.map_append, List.map_cons,
    List.sum_append, List.sum_cons]
  omega

/-- Inserting is inserting after erasing what the key had. -/
theorem insert_erase (m : HashMap κ β) (k : κ) (b : β) :
    (m.erase k).insert k b = m.insert k b := by
  apply AList.ext
  rw [AList.entries_insert_of_notMem (by simp), AList.entries_insert]
  rfl

/-- A new value under a key that has one. -/
theorem total_replace
    {m : HashMap κ β} {k : κ} {b : β}
    (hk : m.lookup k = some b) (weight : β → Nat) (b' : β) :
    total weight (m.insert k b') + weight b = total weight m + weight b' := by
  have herase := total_erase hk weight
  have hnone : (m.erase k).lookup k = none := AList.lookup_erase _ _
  have hinsert := total_insert hnone weight b'
  rw [insert_erase] at hinsert
  omega

/-- A value under a key comes in the place of the one that the key has. -/
theorem total_insert_add (weight : β → Nat) (m : HashMap κ β) (k : κ) (b : β) :
    total weight (m.insert k b) + (m.lookup k).elim 0 weight =
      total weight m + weight b := by
  cases hk : m.lookup k with
  | none =>
      rw [total_insert hk, Option.elim_none, Nat.add_zero, Nat.add_comm]
  | some old =>
      rw [Option.elim_some, total_replace hk]

theorem total_erase_add (weight : β → Nat) (m : HashMap κ β) (k : κ) :
    total weight (m.erase k) + (m.lookup k).elim 0 weight = total weight m := by
  cases hk : m.lookup k with
  | none =>
      rw [erase_of_lookup hk, Option.elim_none, Nat.add_zero]
  | some old =>
      rw [Option.elim_some, total_erase hk]

theorem weight_le_total {m : HashMap κ β} {k : κ} {b : β} (hk : m.lookup k = some b)
    (weight : β → Nat) : weight b ≤ total weight m := by
  have herase := total_erase hk weight
  omega

/-- The total of weights that are all zero. -/
theorem total_eq_zero {weight : β → Nat} {m : HashMap κ β}
    (h : ∀ k b, m.lookup k = some b → weight b = 0) : total weight m = 0 := by
  have hentries : ∀ e ∈ m.entries, weight e.2 = 0 :=
    fun e he => h e.1 e.2 (AList.mem_lookup_iff.mpr he)
  unfold total
  revert hentries
  generalize m.entries = entries
  intro hentries
  induction entries with
  | nil =>
      rfl
  | cons e entries ih =>
      rw [List.map_cons, List.sum_cons, hentries e List.mem_cons_self,
        ih fun e' he' => hentries e' (List.mem_cons_of_mem e he')]

theorem entries_eq_nil {m : HashMap κ β} (h : ∀ k, m.lookup k = none) : m.entries = [] := by
  refine List.eq_nil_iff_forall_not_mem.mpr fun e he => ?_
  have hsome : m.lookup e.1 = some e.2 := AList.mem_lookup_iff.mpr he
  rw [h e.1] at hsome
  cases hsome

omit [DecidableEq κ] in
/-- Counting the values of a kind, in whatever order they come. -/
theorem countP_arrange (o : IterOrder (κ × β)) (p : β → Bool) (m : HashMap κ β) :
    ((o.arrange (toList m)).map Prod.snd).countP p =
      total (fun b => (p b).toNat) m := by
  rw [((o.perm (toList m)).map Prod.snd).countP_eq]
  unfold toList total
  induction m.entries with
  | nil =>
      rfl
  | cons e entries ih =>
      simp only [List.map_cons, List.sum_cons, List.countP_cons, ih]
      cases p e.2 <;> simp [Nat.add_comm]

end Totals

end HashMap

end Lib
