import HyperBackup.Domain
import HyperBackup.Lib.HashMap

/-!
# The chunk index of a BaDou repository

The index maps the hexadecimal text of a chunk hash to the place, the
reference count and the life-cycle status of the chunk, and every version to
the list of its chunks.  Counts are 32-bit words and wrap.

Writing the index file after each update cannot fail here; what a failing
file system does to the index is not part of this model.
-/

namespace HyperBackup
namespace Badou

open Lib

inductive ChunkIndexStatus
  | active
  | gcPending
  | purged
deriving DecidableEq

structure ChunkIndexEntry where
  bucket : String
  path : String
  refCount : UInt32
  size : Nat
  storedSize : Nat
  status : ChunkIndexStatus
deriving DecidableEq

inductive IndexError
  | notFound (chunkHash : String)
deriving DecidableEq

def IndexError.message : IndexError → String
  | .notFound chunkHash => "chunk not found: " ++ chunkHash

structure BadouIndex where
  chunkIndex : HashMap String ChunkIndexEntry
  versionChunks : HashMap Uuid (List String)

namespace ChunkIndexEntry

/-- One more reference. -/
def incremented (e : ChunkIndexEntry) : ChunkIndexEntry :=
  { e with refCount := e.refCount + 1 }

/-- One reference less, but not below zero; without references the chunk
waits for garbage collection. -/
def decremented (e : ChunkIndexEntry) : ChunkIndexEntry :=
  let count := if e.refCount > 0 then e.refCount - 1 else e.refCount
  { e with
    refCount := count
    status := if count = 0 then .gcPending else e.status }

def withStatus
    (status : ChunkIndexStatus) (e : ChunkIndexEntry) : ChunkIndexEntry :=
  { e with status := status }

/-- No version refers to the chunk and it waits for collection. -/
def isCandidate (e : ChunkIndexEntry) : Bool :=
  e.refCount == 0 && e.status == .gcPending

theorem isCandidate_iff {e : ChunkIndexEntry} :
    e.isCandidate = true ↔ e.status = .gcPending ∧ e.refCount = 0 := by
  simp [isCandidate, and_comm]

@[simp] theorem path_withStatus
    (status : ChunkIndexStatus) (e : ChunkIndexEntry) :
    (e.withStatus status).path = e.path :=
  rfl

theorem toNat_refCount_decremented (e : ChunkIndexEntry) :
    e.decremented.refCount.toNat = e.refCount.toNat - 1 := by
  unfold decremented
  by_cases h : e.refCount > 0
  · have h1 : (1 : UInt32) ≤ e.refCount := by
      rw [UInt32.le_iff_toNat_le]
      exact UInt32.lt_iff_toNat_lt.mp h
    simp [h, UInt32.toNat_sub_of_le _ _ h1]
  · have h0 : e.refCount.toNat = 0 := by
      have := UInt32.lt_iff_toNat_lt.not.mp h
      simpa using this
    simp [h, h0]

/-- What is left of an entry after a number of decrements. -/
def dropped (n : Nat) (e : ChunkIndexEntry) : ChunkIndexEntry :=
  decremented^[n] e

@[simp] theorem dropped_zero : dropped 0 = id :=
  rfl

theorem dropped_succ (n : Nat) (e : ChunkIndexEntry) :
    e.dropped (n + 1) = (e.dropped n).decremented :=
  Function.iterate_succ_apply' _ _ _

@[simp] theorem path_dropped (n : Nat) (e : ChunkIndexEntry) :
    (e.dropped n).path = e.path := by
  induction n with
  | zero =>
      rfl
  | succ n ih =>
      rw [dropped_succ]
      exact ih

theorem toNat_refCount_dropped (n : Nat) (e : ChunkIndexEntry) :
    (e.dropped n).refCount.toNat = e.refCount.toNat - n := by
  induction n with
  | zero =>
      rfl
  | succ n ih =>
      rw [dropped_succ, toNat_refCount_decremented, ih]
      omega

/-- An entry whose last reference was taken waits for collection. -/
theorem status_decremented (e : ChunkIndexEntry) :
    e.decremented.status =
      if e.refCount.toNat ≤ 1 then .gcPending else e.status := by
  have hcount := toNat_refCount_decremented e
  have hiff : e.decremented.refCount = 0 ↔ e.refCount.toNat ≤ 1 := by
    rw [← UInt32.toNat_inj, hcount]
    simp only [UInt32.toNat_zero]
    omega
  by_cases h : e.refCount.toNat ≤ 1
  · have h0 := hiff.mpr h
    simp only [decremented] at h0 ⊢
    simp [h0, h]
  · have h0 := hiff.not.mpr h
    simp only [decremented] at h0 ⊢
    simp [h0, h]

/-- An entry that lost its last reference in a deletion is pending. -/
theorem status_dropped_of_refCount_eq_zero
    {n : Nat} {e : ChunkIndexEntry}
    (h0 : (e.dropped (n + 1)).refCount = 0) :
    (e.dropped (n + 1)).status = .gcPending := by
  rw [dropped_succ] at h0 ⊢
  rw [status_decremented, if_pos]
  have hcount := toNat_refCount_decremented (e.dropped n)
  rw [h0] at hcount
  simp only [UInt32.toNat_zero] at hcount
  omega

end ChunkIndexEntry

namespace BadouIndex

def inMemory : BadouIndex :=
  { chunkIndex := ∅, versionChunks := ∅ }

def lookup (index : BadouIndex) (chunkHash : String) : Option ChunkIndexEntry :=
  index.chunkIndex.lookup chunkHash

def register
    (index : BadouIndex) (chunkHash : String) (entry : ChunkIndexEntry) :
    BadouIndex :=
  { index with chunkIndex := index.chunkIndex.insert chunkHash entry }

/-- Change the entry under a hash and return it as changed. -/
def modifyEntry
    (index : BadouIndex) (chunkHash : String)
    (f : ChunkIndexEntry → ChunkIndexEntry) :
    Except IndexError (ChunkIndexEntry × BadouIndex) :=
  match index.lookup chunkHash with
  | none => .error (.notFound chunkHash)
  | some entry => .ok (f entry, index.register chunkHash (f entry))

def incrementRefCount (index : BadouIndex) (chunkHash : String) :
    Except IndexError (UInt32 × BadouIndex) := do
  let (entry, index) ← index.modifyEntry chunkHash .incremented
  return (entry.refCount, index)

def decrementRefCount (index : BadouIndex) (chunkHash : String) :
    Except IndexError (UInt32 × BadouIndex) := do
  let (entry, index) ← index.modifyEntry chunkHash .decremented
  return (entry.refCount, index)

def updateStatus
    (index : BadouIndex) (chunkHash : String) (status : ChunkIndexStatus) :
    Except IndexError (Unit × BadouIndex) := do
  let (_, index) ← index.modifyEntry chunkHash (.withStatus status)
  return ((), index)

def registerVersionChunks
    (index : BadouIndex) (versionId : Uuid) (chunkHashes : List String) :
    BadouIndex :=
  { index with versionChunks := index.versionChunks.insert versionId chunkHashes }

def getVersionChunks (index : BadouIndex) (versionId : Uuid) : List String :=
  (index.versionChunks.lookup versionId).getD []

/-- The entries a collection would purge, in the order of the hash map. -/
def gcCandidates
    (order : IterOrder (String × ChunkIndexEntry)) (index : BadouIndex) :
    List (String × ChunkIndexEntry) :=
  (order.arrange (HashMap.toList index.chunkIndex)).filter fun entry =>
    entry.2.isCandidate

section Lemmas

variable (index : BadouIndex) (h k : String) (entry : ChunkIndexEntry)

@[simp] theorem lookup_inMemory :
    inMemory.lookup h = none :=
  rfl

@[simp] theorem lookup_register :
    (index.register h entry).lookup k =
      if k = h then some entry else index.lookup k :=
  HashMap.lookup_insert_of _ _ _ _

@[simp] theorem versionChunks_register :
    (index.register h entry).versionChunks = index.versionChunks :=
  rfl

@[simp] theorem lookup_registerVersionChunks
    (v : Uuid) (hashes : List String) :
    (index.registerVersionChunks v hashes).lookup h = index.lookup h :=
  rfl

theorem getVersionChunks_of_insert
    {index index' : BadouIndex} {v : Uuid} {hashes : List String}
    (hv : index'.versionChunks = index.versionChunks.insert v hashes)
    (w : Uuid) :
    index'.getVersionChunks w =
      if w = v then hashes else index.getVersionChunks w := by
  unfold getVersionChunks
  rw [hv, HashMap.lookup_insert_of]
  by_cases hw : w = v
  · simp [hw]
  · simp [hw]

@[simp] theorem getVersionChunks_register (v : Uuid) :
    (index.register h entry).getVersionChunks v = index.getVersionChunks v :=
  rfl

theorem mem_gcCandidates
    {order : IterOrder (String × ChunkIndexEntry)} :
    (h, entry) ∈ index.gcCandidates order ↔
      index.lookup h = some entry ∧ entry.isCandidate = true := by
  unfold gcCandidates lookup
  rw [List.mem_filter, IterOrder.mem_arrange, HashMap.mem_toList]

theorem mem_map_fst_gcCandidates
    {order : IterOrder (String × ChunkIndexEntry)} :
    h ∈ (index.gcCandidates order).map Prod.fst ↔
      ∃ e, index.lookup h = some e ∧ e.isCandidate = true := by
  rw [List.mem_map]
  constructor
  · rintro ⟨⟨k, e⟩, hmem, rfl⟩
    exact ⟨e, (index.mem_gcCandidates k e).mp hmem⟩
  · rintro ⟨e, he⟩
    exact ⟨(h, e), (index.mem_gcCandidates h e).mpr he, rfl⟩

/-- Every entry is listed at most once. -/
theorem nodup_gcCandidates
    (order : IterOrder (String × ChunkIndexEntry)) :
    ((index.gcCandidates order).map Prod.fst).Nodup := by
  have hperm : ((order.arrange (HashMap.toList index.chunkIndex)).map
      Prod.fst).Nodup :=
    ((order.perm _).map Prod.fst).nodup_iff.mpr
      (HashMap.nodup_map_fst_toList _)
  exact hperm.sublist (List.filter_sublist.map Prod.fst)

variable {index h entry}

/-- Each update of one entry succeeds where the entry exists, registers the
changed entry and does nothing else. -/
theorem incrementRefCount_of_lookup
    (he : index.lookup h = some entry) :
    index.incrementRefCount h =
      .ok (entry.refCount + 1, index.register h entry.incremented) := by
  simp [incrementRefCount, modifyEntry, he, bind, Except.bind, pure,
    Except.pure, ChunkIndexEntry.incremented]

theorem incrementRefCount_of_lookup_none
    (he : index.lookup h = none) :
    index.incrementRefCount h = .error (.notFound h) := by
  simp [incrementRefCount, modifyEntry, he, bind, Except.bind]

theorem decrementRefCount_of_lookup_none
    (he : index.lookup h = none) :
    index.decrementRefCount h = .error (.notFound h) := by
  simp [decrementRefCount, modifyEntry, he, bind, Except.bind]

theorem decrementRefCount_of_lookup
    (he : index.lookup h = some entry) :
    index.decrementRefCount h =
      .ok (entry.decremented.refCount,
        index.register h entry.decremented) := by
  simp [decrementRefCount, modifyEntry, he, bind, Except.bind, pure,
    Except.pure]

theorem updateStatus_of_lookup
    (he : index.lookup h = some entry) (status : ChunkIndexStatus) :
    index.updateStatus h status =
      .ok ((), index.register h (entry.withStatus status)) := by
  simp [updateStatus, modifyEntry, he, bind, Except.bind, pure, Except.pure]

end Lemmas

end BadouIndex

end Badou
end HyperBackup
