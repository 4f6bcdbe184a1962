import HyperBackup.Badou.Gc
import Mathlib.Data.List.Induction

/-!
# Writing a chunk and reading it back

What a repository promises its callers: a chunk that was just written can be
read.  The promise is studied over every run of the operations on one
repository, from an empty one.

Writing a chunk the index knows does not look at the file.  A collection and
`delete_chunk` remove the file but leave the entry.  So the promise holds for
a chunk exactly where it was never written before, or where the same bytes
were written first and their file is still there.
-/

namespace HyperBackup
namespace Badou
namespace WriteRead

open Lib Lib.Program

/-- The operations on one repository. -/
inductive Op
  | writeChunk (h : ChunkHash) (data : Bytes)
  | readChunk (h : ChunkHash)
  | incrementRefCount (k : String)
  | decrementRefCount (k : String)
  | executeGc (order : IterOrder (String × ChunkIndexEntry))
  | deleteChunk (h : ChunkHash)

/-- The bytes an operation writes under the hash. -/
def Op.bytesFor (h : ChunkHash) : Op → Option Bytes
  | .writeChunk h' data => if h' = h then some data else none
  | .readChunk _ => none
  | .incrementRefCount _ => none
  | .decrementRefCount _ => none
  | .executeGc _ => none
  | .deleteChunk _ => none

/-- What was first written under the hash. -/
def firstWrite (h : ChunkHash) (ops : List Op) : Option Bytes :=
  ops.findSome? (Op.bytesFor h)

section Runs

variable (layout : BadouDataLayout) (repoId : RepositoryId)
variable (blake3 : Bytes → ChunkHash)

/-- The state an operation leaves, whether it succeeds or fails. -/
def step (st : Store) : Op → Store
  | .writeChunk h data =>
      stateAfter (ChunkStore.writeChunk layout repoId h data) st
  | .readChunk _ => st
  | .incrementRefCount k =>
      stateAfter (liftIndex fun index => index.incrementRefCount k) st
  | .decrementRefCount k =>
      stateAfter (liftIndex fun index => index.decrementRefCount k) st
  | .executeGc order => stateAfter (GcExecutor.executeGc order) st
  | .deleteChunk h => stateAfter (ChunkOps.deleteChunk h) st

/-- The state after a run that starts with an empty repository. -/
def run (ops : List Op) : Store :=
  ops.foldl (step layout repoId) Store.empty

/-- A write that succeeds can be read back at once. -/
def WriteReadLaw (st : Store) (h : ChunkHash) (data : Bytes) : Prop :=
  ∀ loc st', (ChunkStore.writeChunk layout repoId h data).run st = .ok loc st' →
    ChunkStore.readChunk blake3 st' h = .ok data

/-- The entry of the chunk, if there is one, still has its file. -/
def FileKept (st : Store) (h : ChunkHash) : Prop :=
  ∀ e, st.index.lookup h.toHex = some e → (st.files.lookup e.path).isSome

end Runs

section Invariant

variable {layout : BadouDataLayout} {repoId : RepositoryId}
variable {h : ChunkHash} {first : Option Bytes} {st : Store}

/-- Entries name their own files; the chunk `h` is known exactly if it was
ever written, and its file holds what was written first. -/
structure Inv
    (layout : BadouDataLayout) (repoId : RepositoryId)
    (h : ChunkHash) (first : Option Bytes) (st : Store) : Prop where
  addressed : st.Addressed layout repoId
  known : (st.index.lookup h.toHex).isSome ↔ first.isSome
  content : ∀ d, st.files.lookup (layout.bucketPath repoId h) = some d →
    first = some d

theorem inv_empty : Inv layout repoId h none Store.empty where
  addressed := by
    intro k e he
    simp [Store.empty] at he
  known := by
    simp [Store.empty]
  content := by
    intro d hd
    simp [Store.empty] at hd

/-- Replacing an entry by one with the same path keeps the invariant. -/
theorem inv_register
    {k : String} {e e' : ChunkIndexEntry}
    (hinv : Inv layout repoId h first st)
    (he : st.index.lookup k = some e) (hpath : e'.path = e.path) :
    Inv layout repoId h first
      (st.onIndex fun index => index.register k e') where
  addressed := by
    intro k' e'' he''
    by_cases hk : k' = k
    · subst hk
      obtain ⟨h', hkey, hfile⟩ := hinv.addressed k' e he
      simp only [Store.index_onIndex, BadouIndex.lookup_register, if_true,
        Option.some.injEq] at he''
      subst he''
      exact ⟨h', hkey, hpath.trans hfile⟩
    · simp only [Store.index_onIndex, BadouIndex.lookup_register, hk,
        if_false] at he''
      exact hinv.addressed k' e'' he''
  known := by
    rw [← hinv.known]
    by_cases hk : h.toHex = k
    · simp [hk, he]
    · simp [hk]
  content := hinv.content

theorem inv_removeFile
    (hinv : Inv layout repoId h first st) (path : String) :
    Inv layout repoId h first (st.removeFile path) where
  addressed := hinv.addressed
  known := hinv.known
  content := by
    intro d hd
    by_cases hp : layout.bucketPath repoId h = path
    · simp [hp] at hd
    · simp only [Store.lookup_files_removeFile, hp, if_false] at hd
      exact hinv.content d hd

/-- A write counts as the first one if the chunk is not known yet. -/
theorem inv_writeChunk
    {h' : ChunkHash} {data : Bytes} (hinv : Inv layout repoId h first st) :
    Inv layout repoId h
      (first.or (if h' = h then some data else none))
      (stateAfter (ChunkStore.writeChunk layout repoId h' data) st) := by
  by_cases hh : h' = h
  · subst hh
    rw [if_pos rfl]
    cases hfirst : first with
    | some d =>
        have hknown := hinv.known.mpr (by simp [hfirst])
        obtain ⟨e, he⟩ := Option.isSome_iff_exists.mp hknown
        rw [Option.some_or, ← hfirst]
        simp only [stateAfter, ChunkStore.run_writeChunk_known he]
        exact inv_register hinv he rfl
    | none =>
        have hnew : ChunkStore.chunkExists st h' = false := by
          simpa [ChunkStore.chunkExists, hfirst] using hinv.known
        constructor
        · exact ChunkStore.addressed_writeChunk hinv.addressed
        · simp [ChunkStore.lookup_writeChunk]
        · intro d hd
          simpa [ChunkStore.lookup_files_writeChunk, hnew] using hd
  · have hne : h ≠ h' := fun heq => hh heq.symm
    rw [if_neg hh, Option.or_none]
    constructor
    · exact ChunkStore.addressed_writeChunk hinv.addressed
    · simpa [ChunkStore.lookup_writeChunk, hne] using hinv.known
    · intro d hd
      simp only [ChunkStore.lookup_files_writeChunk,
        (layout.bucketPath_injective repoId).eq_iff, hne, if_false,
        ite_self] at hd
      exact hinv.content d hd

theorem inv_deleteChunkPhysical
    {h' : ChunkHash} (hinv : Inv layout repoId h first st) :
    Inv layout repoId h first
      (stateAfter (ChunkStore.deleteChunkPhysical h') st) := by
  cases he : st.index.lookup h'.toHex with
  | none =>
      simpa only [stateAfter, ChunkStore.run_deleteChunkPhysical_unknown he]
  | some e =>
      simp only [stateAfter, ChunkStore.run_deleteChunkPhysical_known he]
      exact inv_register (inv_removeFile hinv e.path) he rfl

theorem inv_deleteChunk
    {h' : ChunkHash} (hinv : Inv layout repoId h first st) :
    Inv layout repoId h first (stateAfter (ChunkOps.deleteChunk h') st) := by
  rw [ChunkOps.stateAfter_deleteChunk]
  split
  · exact hinv
  · exact inv_deleteChunkPhysical hinv

theorem inv_executeGc
    (hinv : Inv layout repoId h first st)
    (order : IterOrder (String × ChunkIndexEntry)) :
    Inv layout repoId h first
      (stateAfter (GcExecutor.executeGc order) st) := by
  have hkeys : ∀ k e, st.index.lookup k = some e →
      ∃ h : ChunkHash, k = h.toHex := by
    intro k e he
    obtain ⟨h', hk, -⟩ := hinv.addressed k e he
    exact ⟨h', hk⟩
  obtain ⟨report, -, -, -, -, hlookup, hfiles⟩ :=
    exists_of_returns (GcExecutor.returns_executeGc order hkeys)
  constructor
  · intro k e' he'
    rw [hlookup] at he'
    obtain ⟨e, he, rfl⟩ := Option.map_eq_some_iff.mp he'
    obtain ⟨h', hk, hpath⟩ := hinv.addressed k e he
    refine ⟨h', hk, ?_⟩
    by_cases hc : e.isCandidate
    · simpa [hc] using hpath
    · simpa [hc] using hpath
  · rw [hlookup, Option.isSome_map]
    exact hinv.known
  · intro d hd
    rw [hfiles] at hd
    split at hd
    · cases hd
    · exact hinv.content d hd

/-- One step keeps the invariant; it may bring the first write. -/
theorem inv_step
    (op : Op) (hinv : Inv layout repoId h first st) :
    Inv layout repoId h (first.or (op.bytesFor h)) (step layout repoId st op) := by
  cases op with
  | writeChunk h' d =>
      exact inv_writeChunk hinv
  | readChunk h' =>
      rw [Op.bytesFor, Option.or_none]
      exact hinv
  | incrementRefCount k =>
      rw [Op.bytesFor, Option.or_none]
      cases he : st.index.lookup k with
      | none =>
          rw [step, stateAfter_liftIndex_error
            (BadouIndex.incrementRefCount_of_lookup_none he)]
          exact hinv
      | some e =>
          rw [step, stateAfter_liftIndex
            (BadouIndex.incrementRefCount_of_lookup he)]
          exact inv_register hinv he rfl
  | decrementRefCount k =>
      rw [Op.bytesFor, Option.or_none]
      cases he : st.index.lookup k with
      | none =>
          rw [step, stateAfter_liftIndex_error
            (BadouIndex.decrementRefCount_of_lookup_none he)]
          exact hinv
      | some e =>
          rw [step, stateAfter_liftIndex
            (BadouIndex.decrementRefCount_of_lookup he)]
          exact inv_register hinv he rfl
  | executeGc order =>
      rw [Op.bytesFor, Option.or_none]
      exact inv_executeGc hinv order
  | deleteChunk h' =>
      rw [Op.bytesFor, Option.or_none]
      exact inv_deleteChunk hinv

/-- Every run keeps the invariant. -/
theorem inv_run (ops : List Op) :
    Inv layout repoId h (firstWrite h ops) (run layout repoId ops) := by
  induction ops using List.reverseRecOn with
  | nil =>
      exact inv_empty
  | append_singleton ops op ih =>
      have hstep := inv_step op ih
      simp only [firstWrite, run, List.findSome?_append, List.foldl_append,
        List.foldl_cons, List.foldl_nil] at hstep ⊢
      simpa using hstep

end Invariant

section Law

variable {layout : BadouDataLayout} {repoId : RepositoryId}
variable {blake3 : Bytes → ChunkHash}

/-- Where the invariant holds, the law is a matter of the first write and of
the file. -/
theorem writeReadLaw_iff
    {st : Store} {first : Option Bytes} {data : Bytes}
    (hinv : Inv layout repoId (blake3 data) first st) :
    WriteReadLaw layout repoId blake3 st (blake3 data) data ↔
      (∀ d, first = some d → d = data) ∧ FileKept st (blake3 data) := by
  cases he : st.index.lookup (blake3 data).toHex with
  | none =>
      have hfirst : first = none := by
        simpa [he] using hinv.known
      refine iff_of_true ?_ ⟨by simp [hfirst], by simp [FileKept, he]⟩
      intro loc st' hrun
      rw [ChunkStore.run_writeChunk_new he] at hrun
      cases hrun
      rw [ChunkStore.readChunk_eq_ok_iff]
      refine ⟨ChunkStore.newEntry layout repoId (blake3 data) data, ?_, ?_, rfl⟩
      · simp
      · simp [ChunkStore.newEntry]
  | some e =>
      obtain ⟨h, hkey, hpath⟩ := hinv.addressed _ _ he
      obtain rfl := ChunkHash.toHex_injective hkey
      -- A second write reads what the file of the entry holds.
      have hlaw : WriteReadLaw layout repoId blake3 st (blake3 data) data ↔
          st.files.lookup e.path = some data := by
        constructor
        · intro hlaw
          have hread := hlaw _ _ (ChunkStore.run_writeChunk_known he)
          obtain ⟨e', he', hfile, -⟩ := ChunkStore.readChunk_eq_ok_iff.mp hread
          simp only [Store.index_onIndex, BadouIndex.lookup_register, if_true,
            Option.some.injEq] at he'
          subst he'
          exact hfile
        · intro hfile loc st' hrun
          rw [ChunkStore.run_writeChunk_known he] at hrun
          cases hrun
          rw [ChunkStore.readChunk_eq_ok_iff]
          exact ⟨e.incremented, by simp, hfile, rfl⟩
      have hkept : FileKept st (blake3 data) ↔
          (st.files.lookup e.path).isSome := by
        simp [FileKept, he]
      rw [hlaw, hkept]
      constructor
      · intro hfile
        have hfirst := hinv.content data (hpath ▸ hfile)
        simp [hfirst, hfile]
      · rintro ⟨hfirst, hsome⟩
        obtain ⟨d, hd⟩ := Option.isSome_iff_exists.mp hsome
        rw [hd, hfirst d (hinv.content d (hpath ▸ hd))]

/-- After every run the law holds for data exactly if the chunk was never
written, or was written with these data first and still has its file. -/
theorem run_writeReadLaw_iff
    (layout : BadouDataLayout) (repoId : RepositoryId)
    (blake3 : Bytes → ChunkHash) (ops : List Op) (data : Bytes) :
    WriteReadLaw layout repoId blake3 (run layout repoId ops) (blake3 data) data ↔
      (∀ d, firstWrite (blake3 data) ops = some d → d = data) ∧
        FileKept (run layout repoId ops) (blake3 data) :=
  writeReadLaw_iff (inv_run ops)

/-- After its last reference is dropped and the garbage collected, a chunk
can be written with success but not be read. -/
theorem writeReadLaw_fails_after_executeGc :
    ¬ WriteReadLaw ⟨"/data"⟩ ⟨1⟩ (fun _ => .ofEmpty)
      (run ⟨"/data"⟩ ⟨1⟩
        [.writeChunk .ofEmpty [],
          .decrementRefCount ChunkHash.ofEmpty.toHex,
          .executeGc .asStored])
      .ofEmpty [] := by
  intro hlaw
  exact absurd (hlaw _ _ rfl) (by decide)

end Law

end WriteRead
end Badou
end HyperBackup
