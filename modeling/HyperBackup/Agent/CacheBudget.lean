import HyperBackup.Lib.HashMap
import HyperBackup.Lib.Recency

/-!
# The cache budget of the memory manager

`CacheBudget` keeps values under keys within a number of bytes.  Three fields
are updated separately: the recorded usage, the map of entries and the list of
keys in the order in which they are to be evicted.  The loop of `insert` runs
until the new value fits or the map is empty, and it has no other exit; the
number of times its condition may be tested is an argument of the model, and
a loop that ends does so with some such number.
-/

namespace HyperBackup
namespace Agent

open Lib

universe u

variable {κ : Type u} [DecidableEq κ]

/-- The time an entry was made is not part of the model: nothing reads it. -/
structure CacheBudget (κ : Type u) where
  maxBytes : Nat
  currentBytes : Nat
  entries : HashMap κ (List UInt8)
  entryOrder : List κ

/-- Why a call did not return. -/
inductive CacheStop
  | underflow
  | unfinished
deriving DecidableEq, Repr

namespace CacheBudget

/-- `self.current_bytes -= size`. -/
def release (c : CacheBudget κ) (size : Nat) :
    Except CacheStop (CacheBudget κ) :=
  if size ≤ c.currentBytes then
    .ok { c with currentBytes := c.currentBytes - size }
  else
    .error .underflow

def new (maxBytes : Nat) : CacheBudget κ where
  maxBytes := maxBytes
  currentBytes := 0
  entries := ∅
  entryOrder := []

def evictOldest (c : CacheBudget κ) :
    Except CacheStop (CacheBudget κ) :=
  match c.entryOrder with
  | [] => .ok c
  | key :: rest =>
      match c.entries.lookup key with
      | none => .ok { c with entryOrder := rest }
      | some val =>
          release
            { c with
              entryOrder := rest
              entries := c.entries.erase key }
            val.length

/-- The loop of `insert`, with the number of tests of its condition that may be made. -/
def evictWhile :
    Nat → CacheBudget κ → Nat → Except CacheStop (CacheBudget κ)
  | 0, _, _ => .error .unfinished
  | fuel + 1, c, entrySize =>
      if c.maxBytes < c.currentBytes + entrySize ∧ c.entries ≠ ∅ then do
        let c ← evictOldest c
        evictWhile fuel c entrySize
      else
        .ok c

/-- What `insert` does first when the key is cached. -/
def forgetOld (c : CacheBudget κ) (key : κ) :
    Except CacheStop (CacheBudget κ) :=
  match c.entries.lookup key with
  | none => .ok c
  | some oldVal => do
      let c ← release c oldVal.length
      .ok { c with entryOrder := c.entryOrder.filter fun k => k ≠ key }

def insert (fuel : Nat) (c : CacheBudget κ) (key : κ) (value : List UInt8) :
    Except CacheStop (Bool × CacheBudget κ) := do
  let entrySize := value.length
  let c ← forgetOld c key
  let c ← evictWhile fuel c entrySize
  if entrySize > c.maxBytes then
    .ok (false, c)
  else
    .ok (true,
      { c with
        currentBytes := c.currentBytes + entrySize
        entries := c.entries.insert key value
        entryOrder := c.entryOrder ++ [key] })

def get (c : CacheBudget κ) (key : κ) :
    Option (List UInt8) × CacheBudget κ :=
  match c.entries.lookup key with
  | none => (none, c)
  | some val =>
      match c.entryOrder.idxOf? key with
      | none => (some val, c)
      | some pos =>
          (some val,
            { c with entryOrder := c.entryOrder.eraseIdx pos ++ [key] })

def clear (c : CacheBudget κ) : CacheBudget κ :=
  { c with entries := ∅, entryOrder := [], currentBytes := 0 }

/-- The calls that change the cache. -/
inductive Call (κ : Type u)
  | insert (key : κ) (value : List UInt8)
  | get (key : κ)
  | clear

/-- The state after one call. -/
def call (fuel : Nat) (c : CacheBudget κ) :
    Call κ → Except CacheStop (CacheBudget κ)
  | .insert key value => (insert fuel c key value).map Prod.snd
  | .get key => .ok (get c key).2
  | .clear => .ok (clear c)

/-- The state after a sequence of calls. -/
def run (fuel : Nat) (c : CacheBudget κ) :
    List (Call κ) → Except CacheStop (CacheBudget κ)
  | [] => .ok c
  | first :: calls => do
      let c ← call fuel c first
      run fuel c calls

/-- The key that a call uses. -/
def Call.key? : Call κ → Option κ
  | .insert key _ => some key
  | .get key => some key
  | .clear => none

/-- The keys used by a sequence of calls, oldest use first. -/
def uses (calls : List (Call κ)) : List κ :=
  calls.filterMap Call.key?

/-- Usage, entries and eviction order agree after the given uses of keys. -/
structure InBudget (maxBytes : Nat) (history : List κ) (c : CacheBudget κ) :
    Prop where
  limit : c.maxBytes = maxBytes
  usage : c.currentBytes = HashMap.total List.length c.entries
  within : c.currentBytes ≤ maxBytes
  distinct : c.entryOrder.Nodup
  order : c.entryOrder.Perm c.entries.keys
  recent : Recency.LeastRecentFirst history c.entryOrder

/-- Usage and eviction order account for all entries except the given key's. -/
structure Held (key : κ) (c : CacheBudget κ) : Prop where
  usage : c.currentBytes = HashMap.total List.length (c.entries.erase key)
  order : c.entryOrder.Perm (c.entries.erase key).keys

section Eviction

variable {c : CacheBudget κ} {key : κ} {entrySize : Nat}

/-- While a key is listed, eviction takes the first one and its bytes. -/
theorem evictOldest_of_cons
    {k : κ} {rest : List κ}
    (h : Held key c) (horder : c.entryOrder = k :: rest) :
    ∃ c', evictOldest c = .ok c' ∧ Held key c' ∧
      c'.entryOrder = rest ∧ c'.maxBytes = c.maxBytes ∧
      (key ∈ c'.entries ↔ key ∈ c.entries) := by
  have hk : k ∈ (c.entries.erase key).keys :=
    h.order.mem_iff.mp (by simp [horder])
  obtain ⟨hne, hmem⟩ := AList.mem_erase.mp hk
  obtain ⟨val, hval⟩ :=
    Option.isSome_iff_exists.mp (AList.lookup_isSome.mpr hmem)
  have hrest : (c.entries.erase key).lookup k = some val := by
    rw [AList.lookup_erase_ne hne, hval]
  have htotal := HashMap.total_erase hrest List.length
  have husage := h.usage
  refine ⟨{ c with
      entryOrder := rest
      entries := c.entries.erase k
      currentBytes := c.currentBytes - val.length }, ?_, ⟨?_, ?_⟩, rfl, rfl, ?_⟩
  · have hle : val.length ≤ c.currentBytes := by omega
    simp only [evictOldest, horder, hval, release, if_pos hle]
  · show c.currentBytes - val.length = _
    rw [AList.erase_erase]
    omega
  · show rest.Perm ((c.entries.erase k).erase key).keys
    rw [AList.erase_erase, AList.keys_erase]
    exact (List.cons_perm_iff_perm_erase.mp (horder ▸ h.order)).2
  · show key ∈ c.entries.erase k ↔ key ∈ c.entries
    rw [AList.mem_erase]
    exact and_iff_right (Ne.symm hne)

/-- With no key listed nothing is counted either. -/
theorem Held.currentBytes_of_nil
    (h : Held key c) (horder : c.entryOrder = []) :
    c.currentBytes = 0 ∧ c.entries.erase key = ∅ := by
  have hkeys : (c.entries.erase key).keys = [] :=
    List.nil_perm.mp (horder ▸ h.order)
  have hempty : c.entries.erase key = ∅ := by
    apply AList.ext
    exact List.map_eq_nil_iff.mp hkeys
  exact ⟨by rw [h.usage, hempty, HashMap.total_empty], hempty⟩

/-- The loop ends if the value fits into an empty cache or its key is not cached. -/
theorem evictWhile_ends
    (h : Held key c) (hfit : entrySize ≤ c.maxBytes ∨ key ∉ c.entries) :
    ∃ c', evictWhile (c.entryOrder.length + 1) c entrySize = .ok c' ∧
      Held key c' ∧ c'.entryOrder.Sublist c.entryOrder ∧
      c'.maxBytes = c.maxBytes ∧
      (c'.currentBytes + entrySize ≤ c.maxBytes ∨ c'.entries = ∅) := by
  generalize horder : c.entryOrder = order
  induction order generalizing c with
  | nil =>
      obtain ⟨hzero, herase⟩ := h.currentBytes_of_nil horder
      have hstop : ¬ (c.maxBytes < c.currentBytes + entrySize ∧ c.entries ≠ ∅) := by
        rintro ⟨hlt, hne⟩
        rcases hfit with hle | hkey
        · omega
        · exact hne (by rw [← herase]; exact (AList.ext
            (List.kerase_of_notMem_keys hkey)).symm)
      refine ⟨c, by simp only [evictWhile, if_neg hstop], h,
        by rw [horder], rfl, ?_⟩
      rcases Nat.lt_or_ge c.maxBytes (c.currentBytes + entrySize) with hlt | hle
      · exact Or.inr (not_not.mp fun hne => hstop ⟨hlt, hne⟩)
      · exact Or.inl hle
  | cons k rest ih =>
      by_cases htest : c.maxBytes < c.currentBytes + entrySize ∧ c.entries ≠ ∅
      · obtain ⟨c₁, hevict, hheld, hrest, hmax, hmem⟩ := evictOldest_of_cons h horder
        have hfit₁ : entrySize ≤ c₁.maxBytes ∨ key ∉ c₁.entries := by
          rwa [hmax, hmem]
        obtain ⟨c', hloop, hheld', hsub, hmax', hexit⟩ := ih hheld hfit₁ hrest
        refine ⟨c', ?_, hheld', hsub.trans (List.sublist_cons_self _ _),
          hmax'.trans hmax, hmax ▸ hexit⟩
        rw [List.length_cons, evictWhile, if_pos htest, hevict]
        exact hloop
      · refine ⟨c, by simp only [evictWhile, if_neg htest], h,
          by rw [horder], rfl, ?_⟩
        rcases Nat.lt_or_ge c.maxBytes (c.currentBytes + entrySize) with hlt | hle
        · exact Or.inr (not_not.mp fun hne => htest ⟨hlt, hne⟩)
        · exact Or.inl hle

/-- A cached key whose new value exceeds the budget keeps the loop going forever. -/
theorem evictWhile_stuck
    (h : Held key c) (hkey : key ∈ c.entries)
    (hlarge : c.maxBytes < entrySize) (fuel : Nat) :
    evictWhile fuel c entrySize = .error .unfinished := by
  induction fuel generalizing c with
  | zero =>
      rfl
  | succ fuel ih =>
      have hne : c.entries ≠ ∅ := by
        intro heq
        rw [heq] at hkey
        exact AList.notMem_empty key hkey
      have htest : c.maxBytes < c.currentBytes + entrySize ∧ c.entries ≠ ∅ :=
        ⟨by omega, hne⟩
      rw [evictWhile, if_pos htest]
      cases horder : c.entryOrder with
      | nil =>
          -- the key itself is still in the map but no longer listed
          have hevict : evictOldest c = .ok c := by
            simp only [evictOldest, horder]
          rw [hevict]
          exact ih h hkey hlarge
      | cons k rest =>
          obtain ⟨c₁, hevict, hheld, -, hmax, hmem⟩ := evictOldest_of_cons h horder
          rw [hevict]
          exact ih hheld (hmem.mpr hkey) (by rwa [hmax])

theorem evictWhile_mono
    {fuel fuel' : Nat} {c' : CacheBudget κ} (hfuel : fuel ≤ fuel') :
    evictWhile fuel c entrySize = .ok c' →
      evictWhile fuel' c entrySize = .ok c' := by
  induction fuel generalizing c fuel' with
  | zero =>
      intro h
      cases h
  | succ fuel ih =>
      obtain ⟨fuel', rfl⟩ : ∃ n, fuel' = n + 1 := ⟨fuel' - 1, by omega⟩
      rw [evictWhile, evictWhile]
      split
      · cases evictOldest c with
        | error stop =>
            exact id
        | ok c₁ =>
            exact ih (by omega)
      · exact id

end Eviction

section Calls

variable {maxBytes : Nat} {history : List κ} {c : CacheBudget κ}

theorem inBudget_new (maxBytes : Nat) :
    InBudget maxBytes ([] : List κ) (new maxBytes) where
  limit := rfl
  usage := rfl
  within := Nat.zero_le _
  distinct := List.nodup_nil
  order := List.Perm.nil
  recent := List.Pairwise.nil

theorem InBudget.mem_entryOrder
    (h : InBudget maxBytes history c) {key : κ} :
    key ∈ c.entryOrder ↔ key ∈ c.entries :=
  h.order.mem_iff

/-- Forgetting the old value takes it out of usage and order but not out of the map. -/
theorem forgetOld_ends
    (h : InBudget maxBytes history c) (key : κ) :
    ∃ c', forgetOld c key = .ok c' ∧ Held key c' ∧
      c'.entryOrder.Sublist c.entryOrder ∧
      c'.entries = c.entries ∧ c'.maxBytes = c.maxBytes := by
  cases hold : c.entries.lookup key with
  | none =>
      have hkey : key ∉ c.entries.keys := AList.lookup_eq_none.mp hold
      have herase : c.entries.erase key = c.entries :=
        AList.ext (List.kerase_of_notMem_keys hkey)
      refine ⟨c, by simp only [forgetOld, hold], ⟨?_, ?_⟩,
        List.Sublist.refl _, rfl, rfl⟩
      · rw [herase, h.usage]
      · rw [herase]
        exact h.order
  | some oldVal =>
      have htotal := HashMap.total_erase hold List.length
      have husage := h.usage
      refine ⟨{ c with
          currentBytes := c.currentBytes - oldVal.length
          entryOrder := c.entryOrder.filter fun k => k ≠ key },
        ?_, ⟨?_, ?_⟩, List.filter_sublist, rfl, rfl⟩
      · have hle : oldVal.length ≤ c.currentBytes := by omega
        simp only [forgetOld, hold, release, if_pos hle]
        rfl
      · show c.currentBytes - oldVal.length =
          HashMap.total List.length (c.entries.erase key)
        omega
      · show (c.entryOrder.filter fun k => k ≠ key).Perm _
        have hfilter : (c.entryOrder.filter fun k => k ≠ key) =
            c.entryOrder.erase key := by
          rw [h.distinct.erase_eq_filter key]
          exact List.filter_congr fun k _ => by simp [bne, beq_eq_decide]
        rw [hfilter, AList.keys_erase]
        exact h.order.erase key

/-- An insert that replaces nothing by a value larger than the budget ends in budget. -/
theorem insert_ends
    (h : InBudget maxBytes history c) {key : κ} {value : List UInt8}
    (hfit : key ∈ c.entries → value.length ≤ maxBytes) :
    ∃ fuel b c', insert fuel c key value = .ok (b, c') ∧
      InBudget maxBytes (history ++ [key]) c' := by
  obtain ⟨c₁, hforget, hheld₁, hsub₁, hentries₁, hmax₁⟩ := forgetOld_ends h key
  have hmax : c₁.maxBytes = maxBytes := hmax₁.trans h.limit
  have hroom : value.length ≤ c₁.maxBytes ∨ key ∉ c₁.entries := by
    rw [hmax, hentries₁]
    exact (em (key ∈ c.entries)).imp_left hfit
  obtain ⟨c₂, hloop, hheld₂, hsub₂, hmax₂, hexit⟩ := evictWhile_ends hheld₁ hroom
  have hunlisted : key ∉ c₂.entryOrder := fun hmem =>
    (AList.mem_erase.mp (hheld₂.order.mem_iff.mp hmem)).1 rfl
  have hrecent : Recency.LeastRecentFirst history c₂.entryOrder :=
    h.recent.sublist (hsub₂.trans hsub₁)
  have hlimit : c₂.maxBytes = maxBytes := hmax₂.trans hmax
  have hempty : c₂.entries = ∅ → c₂.currentBytes = 0 ∧ c₂.entryOrder = [] := by
    intro hnone
    have husage := hheld₂.usage
    have horder := hheld₂.order
    rw [hnone] at husage horder
    exact ⟨husage, horder.eq_nil⟩
  by_cases hlarge : value.length > c₂.maxBytes
  · have hnone : c₂.entries = ∅ := hexit.resolve_left (by omega)
    obtain ⟨hzero, hnil⟩ := hempty hnone
    refine ⟨c₁.entryOrder.length + 1, false, c₂, ?_, hlimit, ?_, ?_, ?_, ?_, hrecent.skip hunlisted⟩
    · simp only [insert, hforget, hloop, bind, Except.bind, if_pos hlarge]
    · rw [hzero, hnone, HashMap.total_empty]
    · omega
    · simp [hnil]
    · simp [hnil, hnone]
  · refine ⟨c₁.entryOrder.length + 1, true,
      { c₂ with
        currentBytes := c₂.currentBytes + value.length
        entries := c₂.entries.insert key value
        entryOrder := c₂.entryOrder ++ [key] },
      ?_, hlimit, ?_, ?_, (hrecent.touch hunlisted).nodup, ?_,
      hrecent.touch hunlisted⟩
    · simp only [insert, hforget, hloop, bind, Except.bind, if_neg hlarge]
    · show c₂.currentBytes + value.length = HashMap.total _ (c₂.entries.insert key value)
      rw [← HashMap.insert_erase, HashMap.total_insert (AList.lookup_erase _ _),
        hheld₂.usage, Nat.add_comm]
    · show c₂.currentBytes + value.length ≤ maxBytes
      rcases hexit with hle | hnone
      · omega
      · have hzero := (hempty hnone).1
        omega
    · show (c₂.entryOrder ++ [key]).Perm (c₂.entries.insert key value).keys
      rw [AList.keys_insert, ← AList.keys_erase]
      exact (List.perm_append_singleton _ _).trans (hheld₂.order.cons key)

/-- An insert that replaces a cached value by one larger than the budget never returns. -/
theorem insert_stuck
    (h : InBudget maxBytes history c) {key : κ} {value : List UInt8}
    (hkey : key ∈ c.entries) (hlarge : maxBytes < value.length) (fuel : Nat) :
    insert fuel c key value = .error .unfinished := by
  obtain ⟨c₁, hforget, hheld, -, hentries, hmax⟩ := forgetOld_ends h key
  have hloop : evictWhile fuel c₁ value.length = .error .unfinished := by
    refine evictWhile_stuck hheld (hentries ▸ hkey) ?_ fuel
    rw [hmax, h.limit]
    exact hlarge
  simp only [insert, hforget, hloop, bind, Except.bind]

theorem get_inBudget
    (h : InBudget maxBytes history c) (key : κ) :
    InBudget maxBytes (history ++ [key]) (get c key).2 := by
  cases hval : c.entries.lookup key with
  | none =>
      have hunlisted : key ∉ c.entryOrder :=
        fun hmem => AList.lookup_eq_none.mp hval (h.mem_entryOrder.mp hmem)
      have hget : (get c key).2 = c := by
        simp only [get, hval]
      rw [hget]
      exact { h with recent := h.recent.skip hunlisted }
  | some val =>
      have hlisted : key ∈ c.entryOrder :=
        h.mem_entryOrder.mpr (AList.lookup_isSome.mp (by rw [hval]; rfl))
      obtain ⟨pos, hpos⟩ :=
        Option.isSome_iff_exists.mp (List.isSome_idxOf?.mpr hlisted)
      have herase : c.entryOrder.erase key = c.entryOrder.eraseIdx pos := by
        rw [List.erase_eq_eraseIdx, hpos]
      have hget : (get c key).2 =
          { c with entryOrder := c.entryOrder.erase key ++ [key] } := by
        simp only [get, hval, hpos, herase]
      have hunlisted : key ∉ c.entryOrder.erase key :=
        h.distinct.not_mem_erase
      have hrecent := (h.recent.sublist List.erase_sublist).touch hunlisted
      rw [hget]
      refine ⟨h.limit, h.usage, h.within, hrecent.nodup, ?_, hrecent⟩
      have hback : (c.entryOrder.erase key ++ [key]).Perm c.entryOrder :=
        (List.perm_append_singleton _ _).trans
          (List.perm_cons_erase hlisted).symm
      exact hback.trans h.order

theorem clear_inBudget
    (h : InBudget maxBytes history c) :
    InBudget maxBytes history (clear c) where
  limit := h.limit
  usage := rfl
  within := Nat.zero_le _
  distinct := List.nodup_nil
  order := List.Perm.nil
  recent := List.Pairwise.nil

end Calls

section Runs

variable {maxBytes : Nat} {c c' : CacheBudget κ} {calls : List (Call κ)}

theorem insert_mono
    {fuel fuel' : Nat} {key : κ} {value : List UInt8} {r : Bool × CacheBudget κ}
    (hfuel : fuel ≤ fuel') (h : insert fuel c key value = .ok r) :
    insert fuel' c key value = .ok r := by
  unfold insert at h ⊢
  cases hforget : forgetOld c key with
  | error stop =>
      rw [hforget] at h
      cases h
  | ok c₁ =>
      rw [hforget] at h
      cases hloop : evictWhile fuel c₁ value.length with
      | error stop =>
          simp only [bind, Except.bind, hloop] at h
          cases h
      | ok c₂ =>
          simp only [bind, Except.bind, hloop, evictWhile_mono hfuel hloop] at h ⊢
          exact h

theorem call_mono
    {fuel fuel' : Nat} {a : Call κ} (hfuel : fuel ≤ fuel')
    (h : call fuel c a = .ok c') : call fuel' c a = .ok c' := by
  cases a with
  | insert key value =>
      simp only [call] at h ⊢
      cases hins : insert fuel c key value with
      | error stop =>
          rw [hins] at h
          cases h
      | ok r =>
          rw [hins] at h
          rw [insert_mono hfuel hins]
          exact h
  | get key =>
      exact h
  | clear =>
      exact h

theorem run_append (fuel : Nat) (c : CacheBudget κ) (calls later : List (Call κ)) :
    run fuel c (calls ++ later) = run fuel c calls >>= fun c => run fuel c later := by
  induction calls generalizing c with
  | nil =>
      rfl
  | cons a calls ih =>
      rw [List.cons_append, run, run]
      cases call fuel c a with
      | error stop =>
          rfl
      | ok c₁ =>
          exact ih c₁

theorem run_mono
    {fuel fuel' : Nat} (hfuel : fuel ≤ fuel') :
    run fuel c calls = .ok c' → run fuel' c calls = .ok c' := by
  induction calls generalizing c with
  | nil =>
      exact id
  | cons a calls ih =>
      intro h
      rw [run] at h ⊢
      cases hcall : call fuel c a with
      | error stop =>
          rw [hcall] at h
          cases h
      | ok c₁ =>
          rw [hcall] at h
          rw [call_mono hfuel hcall]
          exact ih h

/-- The state does not depend on how much of the loops was allowed for. -/
theorem run_unique
    {fuel fuel' : Nat} {c₁ c₂ : CacheBudget κ}
    (h₁ : run fuel c calls = .ok c₁) (h₂ : run fuel' c calls = .ok c₂) :
    c₁ = c₂ := by
  have h₁' := run_mono (Nat.le_max_left fuel fuel') h₁
  have h₂' := run_mono (Nat.le_max_right fuel fuel') h₂
  exact Except.ok.inj (h₁'.symm.trans h₂')

/-- A run that gets through a longer sequence got through its beginning. -/
theorem run_concat_ok
    {fuel : Nat} {a : Call κ} :
    run fuel c (calls ++ [a]) = .ok c' ↔
      ∃ c₁, run fuel c calls = .ok c₁ ∧ call fuel c₁ a = .ok c' := by
  rw [run_append]
  cases run fuel c calls with
  | error stop =>
      constructor
      · intro h
        cases h
      · rintro ⟨c₁, h, -⟩
        cases h
  | ok c₁ =>
      have hone : run fuel c₁ [a] = call fuel c₁ a := by
        rw [run]
        cases call fuel c₁ a <;> rfl
      constructor
      · intro h
        exact ⟨c₁, rfl, hone ▸ h⟩
      · rintro ⟨c₂, heq, h⟩
        cases heq
        exact hone.trans h

/-- Every call of the sequence ends, and the cache is in budget after each of them. -/
def KeepsBudget (maxBytes : Nat) (calls : List (Call κ)) : Prop :=
  ∀ before, before <+: calls →
    ∃ fuel c, run fuel (new maxBytes) before = .ok c ∧
      InBudget maxBytes (uses before) c

/-- No insert replaces a cached value by one that is larger than the budget. -/
def ReplacesWithinBudget (maxBytes : Nat) (calls : List (Call κ)) : Prop :=
  ∀ before key value, before ++ [Call.insert key value] <+: calls →
    ∀ fuel c, run fuel (new maxBytes) before = .ok c →
      key ∈ c.entries → value.length ≤ maxBytes

omit [DecidableEq κ] in
theorem uses_concat (calls : List (Call κ)) (a : Call κ) :
    uses (calls ++ [a]) = uses calls ++ (Call.key? a).toList := by
  unfold uses
  rw [List.filterMap_append]
  cases h : Call.key? a <;> simp [h]

/-- One call keeps the cache in budget if it is no oversized replacement. -/
theorem call_ends
    {history : List κ} (h : InBudget maxBytes history c) (a : Call κ)
    (hfit : ∀ key value, a = .insert key value →
      key ∈ c.entries → value.length ≤ maxBytes) :
    ∃ fuel c', call fuel c a = .ok c' ∧
      InBudget maxBytes (history ++ (Call.key? a).toList) c' := by
  cases a with
  | insert key value =>
      obtain ⟨fuel, b, c', hins, hin⟩ := insert_ends h (hfit key value rfl)
      refine ⟨fuel, c', ?_, hin⟩
      rw [call, hins]
      rfl
  | get key =>
      exact ⟨0, _, rfl, get_inBudget h key⟩
  | clear =>
      refine ⟨0, _, rfl, ?_⟩
      rw [Call.key?, Option.toList_none, List.append_nil]
      exact clear_inBudget h

/-- All calls end with the cache in budget exactly if no cached value is replaced by an
oversized one. -/
theorem keepsBudget_iff (maxBytes : Nat) (calls : List (Call κ)) :
    KeepsBudget maxBytes calls ↔ ReplacesWithinBudget maxBytes calls := by
  constructor
  · intro hkeeps before key value hprefix fuel c hrun hkey
    obtain ⟨fuel₁, c₁, hrun₁, hin⟩ :=
      hkeeps before ((List.prefix_append _ _).trans hprefix)
    obtain rfl := run_unique hrun hrun₁
    obtain ⟨fuel₂, c₂, hrun₂, -⟩ := hkeeps _ hprefix
    obtain ⟨c₃, hbefore, hcall⟩ := run_concat_ok.mp hrun₂
    obtain rfl := run_unique hrun hbefore
    by_contra hlarge
    rw [call, insert_stuck hin hkey (by omega)] at hcall
    cases hcall
  · intro hfits before
    induction before using List.reverseRecOn with
    | nil =>
        intro _
        exact ⟨0, _, rfl, inBudget_new maxBytes⟩
    | append_singleton before a ih =>
        intro hprefix
        obtain ⟨fuel, c, hrun, hin⟩ := ih ((List.prefix_append _ _).trans hprefix)
        obtain ⟨fuel', c', hcall, hin'⟩ := call_ends hin a fun key value heq hkey =>
          hfits before key value (heq ▸ hprefix) fuel c hrun hkey
        refine ⟨max fuel fuel', c', run_concat_ok.mpr ⟨c, ?_, ?_⟩, ?_⟩
        · exact run_mono (Nat.le_max_left _ _) hrun
        · exact call_mono (Nat.le_max_right _ _) hcall
        · rw [uses_concat]
          exact hin'

/-- Replacing a value of five bytes by one of eleven in a budget of ten never returns. -/
theorem replace_by_oversized_stuck :
    ¬ ∀ (maxBytes : Nat) (calls : List (Call Nat)), KeepsBudget maxBytes calls := by
  intro hall
  have hkeeps := hall 10
    [.insert 0 (List.replicate 5 0), .insert 0 (List.replicate 11 0)]
  obtain ⟨fuel₁, c₁, hrun₁, hin⟩ :=
    hkeeps [.insert 0 (List.replicate 5 0)] ⟨[_], rfl⟩
  have hfirst : run 1 (new 10) [Call.insert 0 (List.replicate 5 0)] =
      .ok { maxBytes := 10, currentBytes := 5, entryOrder := [0],
            entries := (∅ : HashMap Nat (List UInt8)).insert 0 (List.replicate 5 0) } := by
    rfl
  obtain rfl := run_unique hrun₁ hfirst
  obtain ⟨fuel₂, c₂, hrun₂, -⟩ :=
    hkeeps ([.insert 0 (List.replicate 5 0)] ++ [.insert 0 (List.replicate 11 0)])
      (List.prefix_rfl)
  obtain ⟨c₃, hbefore, hcall⟩ := run_concat_ok.mp hrun₂
  obtain rfl := run_unique hfirst hbefore
  rw [call, insert_stuck hin ((AList.mem_insert _).mpr (Or.inl rfl)) (by simp)] at hcall
  cases hcall

end Runs

end CacheBudget
end Agent
end HyperBackup
