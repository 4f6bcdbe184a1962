import Mathlib.Data.List.Basic
import Mathlib.Data.List.Nodup
import Mathlib.Data.List.Perm.Subperm
import Mathlib.Data.List.ProdSigma

/-!
# Outboxes that remember items and not receivers

Items are sent to a fixed number of receivers, and any sending may fail.  For
every failure the item is put on a list; sending again means to send every item
of the list to every receiver.

`AtMostOnce` says that no receiver gets an item twice and that the list is no
longer than the number of deliveries that are missing.  A new item preserves
it.  Sending again preserves it only if the list is empty or there is at most
one receiver.
-/

namespace Lib

/-- The number of items so far, the list of items to be sent again, and the
deliveries as pairs of an item and a receiver. -/
structure Outbox where
  items : Nat
  pending : List Nat
  delivered : List (Nat × Nat)

namespace Outbox

def empty : Outbox where
  items := 0
  pending := []
  delivered := []

/-- The receivers that an item does not reach, and its deliveries. -/
def failed (n : Nat) (fails : Nat → Bool) (item : Nat) : List Nat :=
  ((List.range n).filter fails).map fun _ => item

def sent (n : Nat) (fails : Nat → Bool) (item : Nat) : List (Nat × Nat) :=
  ((List.range n).filter fun c => !fails c).map fun c => (item, c)

/-- Send an item to every receiver. -/
def deliver (n : Nat) (fails : Nat → Bool) (item : Nat) (o : Outbox) : Outbox where
  items := o.items
  pending := o.pending ++ failed n fails item
  delivered := o.delivered ++ sent n fails item

/-- A new item. -/
def raise (n : Nat) (fails : Nat → Bool) (o : Outbox) : Outbox :=
  deliver n fails o.items { o with items := o.items + 1 }

/-- Send items one after the other, each with its own failures. -/
def deliverAll (n : Nat) : List (Nat × (Nat → Bool)) → Outbox → Outbox
  | [], o => o
  | (item, fails) :: rest, o => deliverAll n rest (deliver n fails item o)

/-- Send every pending item again. -/
def resend (n : Nat) (fails : Nat → Nat → Bool) (o : Outbox) : Outbox :=
  deliverAll n (o.pending.zipIdx.map fun e => (e.1, fails e.2)) { o with pending := [] }

/-- The deliveries that are missing. -/
def undelivered (n : Nat) (o : Outbox) : List (Nat × Nat) :=
  (List.range o.items ×ˢ List.range n).filter fun p => p ∉ o.delivered

structure AtMostOnce (n : Nat) (o : Outbox) : Prop where
  once : o.delivered.Nodup
  bounded : o.pending.length ≤ (undelivered n o).length

/-- What is pending and delivered belongs to items and receivers, every missing
delivery is pending, and nothing is lost. -/
structure Inv (n : Nat) (o : Outbox) : Prop where
  pending_lt : ∀ item ∈ o.pending, item < o.items
  delivered_lt : ∀ p ∈ o.delivered, p.1 < o.items ∧ p.2 < n
  covered : ∀ item < o.items, ∀ c < n, (item, c) ∈ o.delivered ∨ item ∈ o.pending
  enough : o.items * n ≤ o.pending.length + o.delivered.length
  idle : n = 0 → o.pending = []

/-- What sending a list of items leaves pending and what it delivers. -/
structure Batch (n : Nat) (items : List Nat) (failed : List Nat)
    (sent : List (Nat × Nat)) : Prop where
  length : failed.length + sent.length = items.length * n
  failed_mem : ∀ item ∈ failed, item ∈ items
  sent_mem : ∀ p ∈ sent, p.1 ∈ items ∧ p.2 < n
  covered : ∀ item ∈ items, ∀ c < n, (item, c) ∈ sent ∨ item ∈ failed
  nodup : items.Nodup → sent.Nodup

section Batches

variable {n : Nat} {fails : Nat → Bool} {item : Nat} {items items' : List Nat}
variable {failed' : List Nat} {sent' : List (Nat × Nat)} {o : Outbox}

theorem batch_nil : Batch n [] [] [] :=
  ⟨by simp, by simp, by simp, by simp, fun _ => List.nodup_nil⟩

theorem batch_deliver : Batch n [item] (failed n fails item) (sent n fails item) := by
  refine ⟨?_, ?_, ?_, ?_, fun _ => ?_⟩
  · have h := List.length_eq_countP_add_countP fails (l := List.range n)
    simp only [failed, sent, List.length_map, ← List.countP_eq_length_filter,
      List.length_singleton, Nat.one_mul]
    rw [List.length_range] at h
    simpa [Bool.not_eq_true'] using h.symm
  · intro i hi
    obtain ⟨c, -, rfl⟩ := List.mem_map.mp hi
    exact List.mem_singleton_self _
  · intro p hp
    obtain ⟨c, hc, rfl⟩ := List.mem_map.mp hp
    exact ⟨List.mem_singleton_self _, List.mem_range.mp (List.mem_filter.mp hc).1⟩
  · intro i hi c hc
    obtain rfl := List.mem_singleton.mp hi
    by_cases hfails : fails c
    · exact Or.inr (List.mem_map.mpr ⟨c, by simp [hc, hfails], rfl⟩)
    · exact Or.inl (List.mem_map.mpr ⟨c, by simp [hc, hfails], rfl⟩)
  · exact List.Nodup.map (fun c c' h => (Prod.mk.inj h).2) (List.nodup_range.filter _)

theorem Batch.append {failed : List Nat} {sent : List (Nat × Nat)}
    (h : Batch n items failed sent) (h' : Batch n items' failed' sent') :
    Batch n (items ++ items') (failed ++ failed') (sent ++ sent') := by
  refine ⟨?_, fun i hi => ?_, fun p hp => ?_, fun i hi c hc => ?_, fun hnodup => ?_⟩
  · have hlength := h.length
    have hlength' := h'.length
    simp only [List.length_append, Nat.add_mul]
    omega
  · rcases List.mem_append.mp hi with hi | hi
    · exact List.mem_append_left _ (h.failed_mem i hi)
    · exact List.mem_append_right _ (h'.failed_mem i hi)
  · rcases List.mem_append.mp hp with hp | hp
    · exact ⟨List.mem_append_left _ (h.sent_mem p hp).1, (h.sent_mem p hp).2⟩
    · exact ⟨List.mem_append_right _ (h'.sent_mem p hp).1, (h'.sent_mem p hp).2⟩
  · rcases List.mem_append.mp hi with hi | hi
    · exact (h.covered i hi c hc).imp (List.mem_append_left _) (List.mem_append_left _)
    · exact (h'.covered i hi c hc).imp (List.mem_append_right _) (List.mem_append_right _)
  · obtain ⟨hitems, hitems', hdisjoint⟩ := List.nodup_append'.mp hnodup
    refine List.nodup_append'.mpr ⟨h.nodup hitems, h'.nodup hitems', fun p hp hp' => ?_⟩
    exact hdisjoint (h.sent_mem p hp).1 (h'.sent_mem p hp').1

theorem exists_batch (l : List (Nat × (Nat → Bool))) (o : Outbox) :
    ∃ failed sent, Batch n (l.map Prod.fst) failed sent ∧
      deliverAll n l o =
        { o with pending := o.pending ++ failed, delivered := o.delivered ++ sent } := by
  induction l generalizing o with
  | nil =>
      exact ⟨[], [], batch_nil, by simp [deliverAll]⟩
  | cons e l ih =>
      obtain ⟨failed', sent', hbatch, heq⟩ := ih (deliver n e.2 e.1 o)
      have hfirst : Batch n [e.1] (failed n e.2 e.1) (sent n e.2 e.1) := batch_deliver
      refine ⟨_, _, hfirst.append hbatch, ?_⟩
      rw [deliverAll, heq]
      simp [deliver]

theorem exists_batch_resend (fails : Nat → Nat → Bool) (o : Outbox) :
    ∃ failed sent, Batch n o.pending failed sent ∧
      resend n fails o =
        { o with pending := failed, delivered := o.delivered ++ sent } := by
  obtain ⟨failed, sent, hbatch, heq⟩ := exists_batch (n := n)
    (o.pending.zipIdx.map fun e => (e.1, fails e.2)) { o with pending := [] }
  have hitems : (o.pending.zipIdx.map fun e => (e.1, fails e.2)).map Prod.fst =
      o.pending := by
    rw [List.map_map]
    exact List.zipIdx_map_fst 0 o.pending
  rw [hitems] at hbatch
  exact ⟨failed, sent, hbatch, by rw [resend, heq]; rfl⟩

end Batches

section Invariant

variable {n : Nat} {o : Outbox}

theorem inv_empty : Inv n empty := by
  refine ⟨?_, ?_, ?_, ?_, fun _ => rfl⟩ <;> simp [empty]

theorem inv_raise (fails : Nat → Bool) (h : Inv n o) : Inv n (raise n fails o) := by
  have hbatch : Batch n [o.items] (failed n fails o.items) (sent n fails o.items) :=
    batch_deliver
  refine ⟨fun i hi => ?_, fun p hp => ?_, fun i hi c hc => ?_, ?_, fun hn => ?_⟩
  · rcases List.mem_append.mp hi with hi | hi
    · exact Nat.lt_succ_of_lt (h.pending_lt i hi)
    · rw [List.mem_singleton.mp (hbatch.failed_mem i hi)]
      exact Nat.lt_succ_self _
  · rcases List.mem_append.mp hp with hp | hp
    · exact ⟨Nat.lt_succ_of_lt (h.delivered_lt p hp).1, (h.delivered_lt p hp).2⟩
    · rw [List.mem_singleton.mp (hbatch.sent_mem p hp).1]
      exact ⟨Nat.lt_succ_self _, (hbatch.sent_mem p hp).2⟩
  · rcases Nat.lt_succ_iff_lt_or_eq.mp hi with hi | rfl
    · exact (h.covered i hi c hc).imp (List.mem_append_left _) (List.mem_append_left _)
    · exact (hbatch.covered o.items (List.mem_singleton_self _) c hc).imp
        (List.mem_append_right _) (List.mem_append_right _)
  · have hlength := hbatch.length
    have henough := h.enough
    simp only [raise, deliver, List.length_append, List.length_singleton, Nat.add_mul]
      at hlength ⊢
    omega
  · have hfailed : failed n fails o.items = [] := by
      subst hn
      rfl
    simp [raise, deliver, h.idle hn, hfailed]

theorem inv_resend (fails : Nat → Nat → Bool) (h : Inv n o) : Inv n (resend n fails o) := by
  obtain ⟨failed, sent, hbatch, heq⟩ := exists_batch_resend (n := n) fails o
  rw [heq]
  refine ⟨fun i hi => h.pending_lt i (hbatch.failed_mem i hi), fun p hp => ?_,
    fun i hi c hc => ?_, ?_, fun hn => ?_⟩
  · rcases List.mem_append.mp hp with hp | hp
    · exact h.delivered_lt p hp
    · exact ⟨h.pending_lt p.1 (hbatch.sent_mem p hp).1, (hbatch.sent_mem p hp).2⟩
  · rcases h.covered i hi c hc with hdelivered | hpending
    · exact Or.inl (List.mem_append_left _ hdelivered)
    · exact (hbatch.covered i hpending c hc).imp_left (List.mem_append_right _)
  · have hlength := hbatch.length
    have henough := h.enough
    have hmore : o.pending.length ≤ o.pending.length * n := by
      rcases Nat.eq_zero_or_pos n with hn | hn
      · simp [h.idle hn]
      · exact Nat.le_mul_of_pos_right _ hn
    simp only [List.length_append]
    omega
  · have hlength := hbatch.length
    rw [h.idle hn, List.length_nil, Nat.zero_mul] at hlength
    exact List.length_eq_zero_iff.mp (Nat.eq_zero_of_add_eq_zero_right hlength)

/-- If nothing is delivered twice, what is delivered and what is missing make up
all pairs. -/
theorem length_undelivered (h : Inv n o) (honce : o.delivered.Nodup) :
    (undelivered n o).length + o.delivered.length = o.items * n := by
  have hpairs : (List.range o.items ×ˢ List.range n).Nodup :=
    List.nodup_range.product List.nodup_range
  have hperm : (List.range o.items ×ˢ List.range n).filter (fun p => p ∈ o.delivered)
      |>.Perm o.delivered := by
    rw [List.perm_ext_iff_of_nodup (hpairs.filter _) honce]
    intro p
    rw [List.mem_filter, List.mem_product, List.mem_range, List.mem_range,
      decide_eq_true_iff]
    exact ⟨And.right, fun hp => ⟨h.delivered_lt p hp, hp⟩⟩
  have hsplit := List.length_eq_countP_add_countP (fun p => decide (p ∈ o.delivered))
    (l := List.range o.items ×ˢ List.range n)
  rw [List.countP_eq_length_filter, hperm.length_eq, List.countP_eq_length_filter,
    List.length_product, List.length_range, List.length_range] at hsplit
  simp only [decide_eq_true_eq] at hsplit
  unfold undelivered
  omega

/-- A bound without the missing deliveries. -/
theorem atMostOnce_iff (h : Inv n o) :
    AtMostOnce n o ↔ o.delivered.Nodup ∧
      o.pending.length + o.delivered.length = o.items * n := by
  have henough := h.enough
  constructor
  · rintro ⟨honce, hbounded⟩
    have hlength := length_undelivered h honce
    exact ⟨honce, by omega⟩
  · rintro ⟨honce, heq⟩
    have hlength := length_undelivered h honce
    exact ⟨honce, by omega⟩

theorem atMostOnce_empty : AtMostOnce n empty :=
  ⟨List.nodup_nil, Nat.zero_le _⟩

/-- A new item changes nothing. -/
theorem atMostOnce_raise (fails : Nat → Bool) (h : Inv n o) :
    AtMostOnce n (raise n fails o) ↔ AtMostOnce n o := by
  have hbatch : Batch n [o.items] (failed n fails o.items) (sent n fails o.items) :=
    batch_deliver
  have hlength := hbatch.length
  rw [atMostOnce_iff (inv_raise fails h), atMostOnce_iff h]
  have hnodup : (o.delivered ++ sent n fails o.items).Nodup ↔ o.delivered.Nodup := by
    rw [List.nodup_append']
    refine ⟨And.left, fun honce => ⟨honce, hbatch.nodup (List.nodup_singleton _), ?_⟩⟩
    intro p hp hp'
    have hlt := (h.delivered_lt p hp).1
    rw [List.mem_singleton.mp (hbatch.sent_mem p hp').1] at hlt
    exact Nat.lt_irrefl _ hlt
  simp only [raise, deliver, hnodup, List.length_append, List.length_singleton,
    Nat.add_mul] at hlength ⊢
  refine and_congr_right fun _ => ?_
  constructor
  · intro heq
    omega
  · intro heq
    omega

/-- With one receiver, what is pending and what is delivered are the items, each
of them once. -/
theorem perm_items (h : Inv 1 o) (hgood : AtMostOnce 1 o) :
    (List.range o.items).Perm (o.pending ++ o.delivered.map Prod.fst) := by
  have heq := ((atMostOnce_iff h).mp hgood).2
  have hsubset : List.range o.items ⊆ o.pending ++ o.delivered.map Prod.fst := by
    intro i hi
    rcases h.covered i (List.mem_range.mp hi) 0 Nat.zero_lt_one with hdelivered | hpending
    · exact List.mem_append_right _ (List.mem_map.mpr ⟨(i, 0), hdelivered, rfl⟩)
    · exact List.mem_append_left _ hpending
  refine (List.nodup_range.subperm hsubset).perm_of_length_le ?_
  simp only [List.length_append, List.length_map, List.length_range]
  omega

/-- Sending again is harmless if nothing is pending or there is one receiver. -/
theorem atMostOnce_resend (fails : Nat → Nat → Bool) (h : Inv n o) :
    AtMostOnce n (resend n fails o) ↔ AtMostOnce n o ∧ (o.pending = [] ∨ n ≤ 1) := by
  have hinv := inv_resend fails h
  obtain ⟨failed, sent, hbatch, heq⟩ := exists_batch_resend (n := n) fails o
  have hlength := hbatch.length
  have henough := h.enough
  rw [heq] at hinv ⊢
  rw [atMostOnce_iff hinv]
  simp only [List.length_append]
  constructor
  · rintro ⟨honce, hcount⟩
    have hmore : o.pending.length ≤ o.pending.length * n := by
      rcases Nat.eq_zero_or_pos n with hn | hn
      · simp [h.idle hn]
      · exact Nat.le_mul_of_pos_right _ hn
    refine ⟨(atMostOnce_iff h).mpr ⟨(List.nodup_append'.mp honce).1, by omega⟩, ?_⟩
    by_contra hnot
    rw [not_or, Nat.not_le] at hnot
    obtain ⟨hpending, hn⟩ := hnot
    -- two receivers get every pending item, or it is pending once more for each
    have hpos := List.length_pos_of_ne_nil hpending
    have htwice : o.pending.length * 2 ≤ o.pending.length * n :=
      Nat.mul_le_mul_left _ hn
    omega
  · rintro ⟨hgood, hquiet⟩
    obtain ⟨honce, hcount⟩ := (atMostOnce_iff h).mp hgood
    rcases hquiet with hpending | hn
    · rw [hpending, List.length_nil, Nat.zero_mul] at hlength
      rw [hpending, List.length_nil] at hcount
      have hsent : sent = [] := List.length_eq_zero_iff.mp (by omega)
      rw [hsent, List.append_nil]
      exact ⟨honce, by simp only [List.length_nil]; omega⟩
    · rcases Nat.le_one_iff_eq_zero_or_eq_one.mp hn with rfl | rfl
      · have hsent : sent = [] := List.length_eq_zero_iff.mp (by omega)
        have hpending := h.idle rfl
        rw [hpending, List.length_nil] at hcount
        rw [hsent, List.append_nil]
        exact ⟨honce, by simp only [List.length_nil]; omega⟩
      · have hnodup := (perm_items h hgood).nodup_iff.mp List.nodup_range
        obtain ⟨hpending, -, hdisjoint⟩ := List.nodup_append'.mp hnodup
        refine ⟨List.nodup_append'.mpr ⟨honce, hbatch.nodup hpending, ?_⟩, by omega⟩
        intro p hp hp'
        exact hdisjoint (hbatch.sent_mem p hp').1 (List.mem_map_of_mem hp)

end Invariant

end Outbox
end Lib
