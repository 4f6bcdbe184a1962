import HyperBackup.Badou.CommitCrash

/-!
# A commit whose operations can fail

The operations of a commit on the file system can fail, each at its own point.
Almost every failure ends the commit where it is.  Only a failed verification
removes the staging directories, and it leaves the version and the chunks as
they are.

What each part of such a commit does is stated as the condition on the points
under which it gets through, together with the state it then leaves.
-/

namespace HyperBackup
namespace Badou
namespace FailedCommit

open Lib Lib.Program CommitCrash

/-- Where the file system can fail; chunks are numbered as in the request. -/
inductive IoPoint
  | appendJournal (payload : String)
  | createDir (side : Side)
  | writeChunkFile (i : Nat)
  | persistIndex (i : Nat)
  | writeStaged (side : Side)
  | readChunk (i : Nat)
  | renameStaged (side : Side)
  | removeDir (side : Side)
  | writeSnapshot
  | renameSnapshot
deriving DecidableEq

/-- Which points fail, and what the operating system says. -/
abbrev Faults : Type :=
  IoPoint → Option String

inductive Error
  | commit (e : CommitError)
  | io (point : IoPoint) (text : String)
deriving DecidableEq

/-- The repository on disk, with the index in memory, and the version table. -/
structure Machine where
  disk : RepoDisk
  versions : VersionOps

abbrev FaultM (α : Type) : Type :=
  EStateM Error Machine α

section Operations

variable (layout : BadouDataLayout) (repoId : RepositoryId) (faults : Faults)

/-- The state after an operation of the file system. -/
def after (op : FsOp) (s : Machine) : Machine :=
  { s with disk := exec layout repoId op s.disk }

def check (point : IoPoint) : FaultM Unit :=
  match faults point with
  | none => pure ()
  | some text => throw (.io point text)

/-- An operation that can fail at the given point, and then does nothing. -/
def perform (point : IoPoint) (op : FsOp) : FaultM Unit := do
  check faults point
  modify (after layout repoId op)

def onVersions {α : Type} (x : EStateM VersionOpsError VersionOps α) : FaultM α :=
  zoom (fun s => s.versions) (fun v s => { s with versions := v })
    (fun e => .commit (.versionOps e)) x

variable (blake3 : Bytes → ChunkHash) (json : Json) (draws : CommitDraws)

def journal (opType : JournalOpType) (payload : String) (committed : Bool) :
    FaultM Unit :=
  perform layout repoId faults (.appendJournal payload)
    (journalOp draws opType payload committed)

/-- Create the two staging directories of the version. -/
def createStaging : FaultM (Except String Unit) := do
  let v := draws.versionId.uuid
  let s ← get
  if (s.disk.staging .manifests v).isSome ∨ (s.disk.staging .snapshots v).isSome then
    return .error (StagingError.alreadyExists v).message
  else
    match faults (.createDir .manifests) with
    | some text => return .error ("IO error: " ++ text)
    | none =>
        modify (after layout repoId (.createDir .manifests v))
        match faults (.createDir .snapshots) with
        | some text => return .error ("IO error: " ++ text)
        | none =>
            modify (after layout repoId (.createDir .snapshots v))
            return .ok ()

/-- Write one chunk.  The index is changed in memory before its file is written. -/
def writeChunk (i : Nat) (chunkHash : ChunkHash) (data : Bytes) : FaultM Unit := do
  let s ← get
  if ¬ ChunkStore.chunkExists s.disk.store chunkHash then
    check faults (.writeChunkFile i)
  modify (after layout repoId (.writeChunk chunkHash data))
  check faults (.persistIndex i)

def writeChunks : Nat → List (ChunkHash × Bytes) → FaultM Unit
  | _, [] => pure ()
  | i, (chunkHash, data) :: rest => do
      writeChunk layout repoId faults i chunkHash data
      writeChunks (i + 1) rest

def readChunk (i : Nat) (chunkHash : ChunkHash) : FaultM Bytes := do
  let s ← get
  if ChunkStore.chunkExists s.disk.store chunkHash then
    check faults (.readChunk i)
  ofResult (fun e => .commit (.chunkStore e))
    (ChunkStore.readChunk blake3 s.disk.store chunkHash)

/-- Read every chunk back; is each what was to be written? -/
def verifyChunks : Nat → List (ChunkHash × Bytes) → FaultM Bool
  | _, [] => return true
  | i, (chunkHash, data) :: rest => do
      let stored ← readChunk faults blake3 i chunkHash
      if stored ≠ data then
        return false
      else
        verifyChunks (i + 1) rest

/-- Remove a staging directory that is there. -/
def removeDir (side : Side) : FaultM Unit := do
  let s ← get
  if (s.disk.staging side draws.versionId.uuid).isSome then
    perform layout repoId faults (.removeDir side)
      (.removeDir side draws.versionId.uuid)

def cleanupStaging : FaultM Unit := do
  removeDir layout repoId faults draws .manifests
  removeDir layout repoId faults draws .snapshots

def failCommit (reason : String) : FaultM Unit := do
  cleanupStaging layout repoId faults draws
  journal layout repoId faults draws .recovery reason false

/-- Move the one file that each staging directory holds, then remove both. -/
def atomicCommit (manifestName snapshotName : String) : FaultM Unit := do
  perform layout repoId faults (.renameStaged .manifests)
    (.renameStaged .manifests draws.versionId.uuid manifestName)
  perform layout repoId faults (.renameStaged .snapshots)
    (.renameStaged .snapshots draws.versionId.uuid snapshotName)
  cleanupStaging layout repoId faults draws

def writeSnapshot (snapshot : Snapshot) : FaultM Unit := do
  let staging := SnapshotStore.stagingName snapshot.snapshotId
  perform layout repoId faults .writeSnapshot
    (.write .snapshots staging (json.snapshotToVec snapshot))
  perform layout repoId faults .renameSnapshot
    (.rename .snapshots staging (SnapshotStore.snapshotName snapshot.snapshotId))

variable (parentVersionId : Option VersionId) (manifest : Manifest)
variable (snapshot : Snapshot) (chunks : List (ChunkHash × Bytes))

/-- Create the version and its staging directories. -/
def beginCommit : FaultM (Except String Unit) := do
  let _ ← onVersions (VersionOps.createVersion draws.now draws.versionId
    draws.snapshotId repoId parentVersionId)
  journal layout repoId faults draws .commitStep "start" false
  createStaging layout repoId faults draws

/-- Write and verify chunks and manifest. -/
def stageCommit : FaultM Bool := do
  let _ ← onVersions (VersionOps.startWriting draws.versionId)
  writeChunks layout repoId faults 0 chunks
  perform layout repoId faults (.writeStaged .manifests)
    (.writeStaged .manifests draws.versionId.uuid
      (ManifestStore.manifestName manifest.manifestId) (json.manifestToVec manifest))
  journal layout repoId faults draws .commitStep "chunks_written" false
  let _ ← onVersions (VersionOps.transition draws.versionId .verifying)
  verifyChunks faults blake3 0 chunks

/-- Stage the snapshot and move what is staged. -/
def publishCommit : FaultM Unit := do
  journal layout repoId faults draws .verifyStep "verified" false
  let _ ← onVersions (VersionOps.transition draws.versionId .committing)
  let snapshot := CommitBackup.committedSnapshot blake3 json draws manifest snapshot
    .writing
  perform layout repoId faults (.writeStaged .snapshots)
    (.writeStaged .snapshots draws.versionId.uuid
      (SnapshotStore.snapshotName snapshot.snapshotId) (json.snapshotToVec snapshot))
  atomicCommit layout repoId faults draws
    (ManifestStore.manifestName manifest.manifestId)
    (SnapshotStore.snapshotName snapshot.snapshotId)
  journal layout repoId faults draws .commitStep "staging_committed" false

/-- Seal the version and write the snapshot as sealed. -/
def sealCommit : FaultM CommitResult := do
  let _ ← onVersions (VersionOps.transition draws.versionId .sealed)
  writeSnapshot layout repoId faults json
    (CommitBackup.committedSnapshot blake3 json draws manifest snapshot .sealed)
  journal layout repoId faults draws .commitStep "sealed" true
  return .success draws.versionId draws.snapshotId

def commitBackup : FaultM CommitResult := do
  match ← beginCommit layout repoId faults draws parentVersionId with
  | .error e =>
      return .failure draws.versionId ("staging creation failed: " ++ e)
  | .ok () =>
      if ← stageCommit layout repoId faults blake3 json draws manifest chunks then
        publishCommit layout repoId faults blake3 json draws manifest snapshot
        sealCommit layout repoId faults blake3 json draws manifest snapshot
      else
        failCommit layout repoId faults draws "chunk hash verification failed"
        return .failure draws.versionId "chunk hash verification failed"

end Operations

section Chunks

variable (layout : BadouDataLayout) (repoId : RepositoryId) (faults : Faults)

/-- No write of a chunk fails.  The file is written for the first of the chunks
that have a new hash. -/
def ChunksWritten (i : Nat) (st : Store) (chunks : List (ChunkHash × Bytes)) : Prop :=
  ∀ earlier c later, chunks = earlier ++ c :: later →
    (ChunkStore.chunkExists st c.1 = false → c.1 ∉ earlier.map Prod.fst →
      faults (.writeChunkFile (i + earlier.length)) = none) ∧
    faults (.persistIndex (i + earlier.length)) = none

/-- Each chunk has its hash.  A known one is stored so, in a file that no new chunk
takes, and a new one is given with the same bytes each time. -/
structure ChunksSound (blake3 : Bytes → ChunkHash) (st : Store)
    (chunks : List (ChunkHash × Bytes)) : Prop where
  hashed : ∀ c ∈ chunks, blake3 c.2 = c.1
  known : ∀ c ∈ chunks, ∀ e, st.index.lookup c.1.toHex = some e →
    st.files.lookup e.path = some c.2 ∧
      ∀ c' ∈ chunks, ChunkStore.chunkExists st c'.1 = false →
        e.path ≠ layout.bucketPath repoId c'.1
  same : ∀ c ∈ chunks, ChunkStore.chunkExists st c.1 = false →
    ∀ c' ∈ chunks, c'.1 = c.1 → c'.2 = c.2

/-- The chunks are known, and each is counted as often as the counter wraps. -/
def KeepsCounts (st : Store) (chunks : List (ChunkHash × Bytes)) : Prop :=
  ∀ c ∈ chunks, ChunkStore.chunkExists st c.1 ∧
    2 ^ 32 ∣ (chunks.map Prod.fst).count c.1

variable {layout repoId faults}
variable {blake3 : Bytes → ChunkHash} {st : Store}
variable {chunks : List (ChunkHash × Bytes)}

theorem chunksWritten_nil (i : Nat) : ChunksWritten faults i st [] := by
  intro earlier c later h
  simp at h

theorem chunksWritten_cons {i : Nat} {c : ChunkHash × Bytes} :
    ChunksWritten faults i st (c :: chunks) ↔
      (ChunkStore.chunkExists st c.1 = false → faults (.writeChunkFile i) = none) ∧
        faults (.persistIndex i) = none ∧
        ChunksWritten faults (i + 1)
          (stateAfter (ChunkStore.writeChunk layout repoId c.1 c.2) st) chunks := by
  constructor
  · intro h
    obtain ⟨hfile, hpersist⟩ := h [] c chunks rfl
    refine ⟨fun hnew => hfile hnew (by simp), hpersist, ?_⟩
    rintro earlier c' later rfl
    obtain ⟨hfile', hpersist'⟩ := h (c :: earlier) c' later rfl
    rw [List.length_cons, Nat.add_comm earlier.length, ← Nat.add_assoc] at hfile' hpersist'
    refine ⟨fun hnew hfirst => ?_, hpersist'⟩
    rw [ChunkStore.chunkExists_writeChunk, Bool.or_eq_false_iff,
      decide_eq_false_iff_not] at hnew
    refine hfile' hnew.2 ?_
    rw [List.map_cons, List.mem_cons]
    exact not_or.mpr ⟨hnew.1, hfirst⟩
  · rintro ⟨hfile, hpersist, hrest⟩ earlier c' later heq
    cases earlier with
    | nil =>
        obtain ⟨rfl, -⟩ := List.cons.inj heq
        exact ⟨fun hnew _ => hfile hnew, hpersist⟩
    | cons first earlier =>
        obtain ⟨rfl, rfl⟩ := List.cons.inj heq
        obtain ⟨hfile', hpersist'⟩ := hrest earlier c' later rfl
        rw [List.length_cons, Nat.add_comm earlier.length, ← Nat.add_assoc]
        refine ⟨fun hnew hfirst => ?_, hpersist'⟩
        rw [List.map_cons, List.mem_cons, not_or] at hfirst
        refine hfile' ?_ hfirst.2
        rw [ChunkStore.chunkExists_writeChunk, hnew, Bool.or_false]
        exact decide_eq_false hfirst.1

theorem chunkExists_eq_false_iff {h : ChunkHash} :
    ChunkStore.chunkExists st h = false ↔ st.index.lookup h.toHex = none := by
  unfold ChunkStore.chunkExists
  cases st.index.lookup h.toHex with
  | none =>
      simp
  | some e =>
      simp

/-- Where a chunk is read from once it has been written. -/
theorem readChunk_writeChunks_eq_ok {h : ChunkHash} {data : Bytes}
    (hmem : h ∈ chunks.map Prod.fst) :
    ChunkStore.readChunk blake3
        (stateAfter (ChunkStore.writeChunks layout repoId chunks) st) h = .ok data ↔
      (stateAfter (ChunkStore.writeChunks layout repoId chunks) st).files.lookup
          (((st.index.lookup h.toHex).map ChunkIndexEntry.path).getD
            (layout.bucketPath repoId h)) = some data ∧
        blake3 data = h := by
  obtain ⟨e, he, hpath⟩ := @ChunkStore.path_writeChunks layout repoId _ _ hmem st
  rw [ChunkStore.readChunk_eq_ok_iff, ← hpath]
  constructor
  · rintro ⟨e', he', hfile, hhash⟩
    obtain rfl := Option.some.inj (he.symm.trans he')
    exact ⟨hfile, hhash⟩
  · rintro ⟨hfile, hhash⟩
    exact ⟨e, he, hfile, hhash⟩

/-- Chunks that are all read as they were given are sound. -/
theorem chunksSound_of_reads
    (h : ∀ c ∈ chunks, ChunkStore.readChunk blake3
      (stateAfter (ChunkStore.writeChunks layout repoId chunks) st) c.1 = .ok c.2) :
    ChunksSound layout repoId blake3 st chunks := by
  have hread : ∀ c ∈ chunks, _ ∧ blake3 c.2 = c.1 := fun c hc =>
    (readChunk_writeChunks_eq_ok (List.mem_map_of_mem hc)).mp (h c hc)
  simp only [ChunkStore.lookup_files_writeChunks] at hread
  refine ⟨fun c hc => (hread c hc).2, fun c hc e he => ?_, fun c hc _ c' hc' heq => ?_⟩
  · obtain ⟨hfile, hhash⟩ := hread c hc
    rw [he, Option.map_some, Option.getD_some] at hfile
    cases hfind : chunks.find? (ChunkStore.takesPath layout repoId st e.path) with
    | some c₁ =>
        -- The file of the known chunk would hold the bytes of another.
        rw [hfind] at hfile
        obtain ⟨hnew, -⟩ := ChunkStore.takesPath_eq_true_iff.mp (List.find?_some hfind)
        have heq : c₁.1 = c.1 := by
          rw [← (hread c₁ (List.mem_of_find?_eq_some hfind)).2, Option.some.inj hfile,
            hhash]
        rw [heq, chunkExists_eq_false_iff, he] at hnew
        cases hnew
    | none =>
        rw [hfind] at hfile
        refine ⟨hfile, fun c' hc' hnew hpath => ?_⟩
        exact List.find?_eq_none.mp hfind c' hc'
          (ChunkStore.takesPath_eq_true_iff.mpr ⟨hnew, hpath⟩)
  · have h' := h c' hc'
    rw [heq, h c hc] at h'
    exact (Except.ok.inj h').symm

theorem reads_of_chunksSound (hsound : ChunksSound layout repoId blake3 st chunks) :
    ∀ c ∈ chunks, ChunkStore.readChunk blake3
      (stateAfter (ChunkStore.writeChunks layout repoId chunks) st) c.1 = .ok c.2 := by
  intro c hc
  rw [readChunk_writeChunks_eq_ok (List.mem_map_of_mem hc),
    ChunkStore.lookup_files_writeChunks]
  refine ⟨?_, hsound.hashed c hc⟩
  cases hlookup : st.index.lookup c.1.toHex with
  | some e =>
      obtain ⟨hfile, hother⟩ := hsound.known c hc e hlookup
      have hfind : chunks.find? (ChunkStore.takesPath layout repoId st e.path) =
          none := by
        rw [List.find?_eq_none]
        intro c' hc' htakes
        obtain ⟨hnew, hpath⟩ := ChunkStore.takesPath_eq_true_iff.mp htakes
        exact hother c' hc' hnew hpath
      rw [Option.map_some, Option.getD_some, hfind]
      exact hfile
  | none =>
      have hnew := chunkExists_eq_false_iff.mpr hlookup
      rw [Option.map_none, Option.getD_none]
      cases hfind : chunks.find? (ChunkStore.takesPath layout repoId st
          (layout.bucketPath repoId c.1)) with
      | none =>
          exact absurd (ChunkStore.takesPath_eq_true_iff.mpr ⟨hnew, rfl⟩)
            (List.find?_eq_none.mp hfind c hc)
      | some c₁ =>
          obtain ⟨-, hpath⟩ := ChunkStore.takesPath_eq_true_iff.mp
            (List.find?_some hfind)
          have heq : c₁.1 = c.1 :=
            (layout.bucketPath_injective repoId hpath).symm
          exact congrArg some (hsound.same c hc hnew c₁
            (List.mem_of_find?_eq_some hfind) heq)

/-- Every chunk is read as it was given exactly if the chunks are sound. -/
theorem chunksSound_iff :
    (∀ c ∈ chunks, ChunkStore.readChunk blake3
        (stateAfter (ChunkStore.writeChunks layout repoId chunks) st) c.1 = .ok c.2) ↔
      ChunksSound layout repoId blake3 st chunks :=
  ⟨chunksSound_of_reads, reads_of_chunksSound⟩

/-- The index is the same after the chunks exactly if they keep the counts. -/
theorem index_writeChunks_iff :
    (∀ k, (stateAfter (ChunkStore.writeChunks layout repoId chunks)
        st).index.lookup k = st.index.lookup k) ↔ KeepsCounts st chunks := by
  have hwraps : ∀ n : Nat, UInt32.ofNat n = 0 ↔ 2 ^ 32 ∣ n := by
    intro n
    rw [← UInt32.toNat_inj, UInt32.toNat_ofNat', UInt32.toNat_zero,
      Nat.dvd_iff_mod_eq_zero]
  constructor
  · intro hsame c hc
    have hmem : c.1 ∈ chunks.map Prod.fst := List.mem_map_of_mem hc
    obtain ⟨e, he, -⟩ := @ChunkStore.path_writeChunks layout repoId _ _ hmem st
    refine ⟨?_, ?_⟩
    · rw [hsame] at he
      simp [ChunkStore.chunkExists, he]
    · have hcount := @ChunkStore.refCount_writeChunks layout repoId chunks c.1 st
      rw [ChunkStore.refCount, hsame, ← ChunkStore.refCount] at hcount
      exact (hwraps _).mp (by simpa using hcount.symm)
  · intro hkeeps k
    by_cases hk : ∃ c ∈ chunks, k = c.1.toHex
    · obtain ⟨c, hc, rfl⟩ := hk
      obtain ⟨hexists, hdvd⟩ := hkeeps c hc
      obtain ⟨e, he⟩ := Option.isSome_iff_exists.mp hexists
      obtain ⟨count, hlookup⟩ :=
        @ChunkStore.lookup_writeChunks_of_known layout repoId _ chunks _ _ he
      have hcount := @ChunkStore.refCount_writeChunks layout repoId chunks c.1 st
      rw [(hwraps _).mpr hdvd, UInt32.add_zero, ChunkStore.refCount,
        ChunkStore.refCount, hlookup, he] at hcount
      have hsame : count = e.refCount := hcount
      rw [hlookup, he, hsame]
    · push Not at hk
      exact ChunkStore.lookup_writeChunks_of_not_mem hk st

end Chunks

section Steps

variable {layout : BadouDataLayout} {repoId : RepositoryId} {faults : Faults}
variable {blake3 : Bytes → ChunkHash} {json : Json} {draws : CommitDraws}
variable {point : IoPoint} {op : FsOp} {s s' : Machine} {u : Unit}

theorem run_check_eq_ok :
    (check faults point).run s = .ok u s' ↔ faults point = none ∧ s' = s := by
  unfold check
  cases faults point with
  | none =>
      constructor
      · rintro ⟨⟩
        exact ⟨rfl, rfl⟩
      · rintro ⟨_, rfl⟩
        rfl
  | some text =>
      constructor
      · intro h
        cases h
      · rintro ⟨h, _⟩
        cases h

theorem run_perform_eq_ok :
    (perform layout repoId faults point op).run s = .ok u s' ↔
      faults point = none ∧ s' = after layout repoId op s := by
  unfold perform
  rw [run_bind_eq_ok]
  constructor
  · rintro ⟨_, _, hcheck, hmodify⟩
    obtain ⟨hpoint, rfl⟩ := run_check_eq_ok.mp hcheck
    cases hmodify
    exact ⟨hpoint, rfl⟩
  · rintro ⟨hpoint, rfl⟩
    exact ⟨(), s, run_check_eq_ok.mpr ⟨hpoint, rfl⟩, rfl⟩

theorem run_transition_eq_ok {v : VersionId} {target : VersionStatus}
    {version version' : Version}
    (hv : s.versions.versions.lookup v = some version)
    (hok : version.status.canTransitionTo target = true) :
    (onVersions (VersionOps.transition v target)).run s = .ok version' s' ↔
      version' = { version with status := target } ∧
      s' = { s with versions := { s.versions with
        versions := s.versions.versions.insert v { version with status := target } } } := by
  have hrun : (onVersions (VersionOps.transition v target)).run s = .ok _ _ :=
    run_zoom_ok (VersionOps.run_transition hv hok)
  rw [hrun]
  constructor
  · rintro ⟨⟩
    exact ⟨rfl, rfl⟩
  · rintro ⟨rfl, rfl⟩
    rfl

theorem run_removeDir_eq_ok {side : Side}
    (h : (s.disk.staging side draws.versionId.uuid).isSome) :
    (removeDir layout repoId faults draws side).run s = .ok u s' ↔
      faults (.removeDir side) = none ∧
        s' = after layout repoId (.removeDir side draws.versionId.uuid) s := by
  unfold removeDir
  rw [run_bind_of_ok (EStateM.run_get _)]
  simp only [h, if_true]
  exact run_perform_eq_ok

theorem run_writeChunk_eq_ok {i : Nat} {h : ChunkHash} {data : Bytes} :
    (writeChunk layout repoId faults i h data).run s = .ok u s' ↔
      ((ChunkStore.chunkExists s.disk.store h = false →
        faults (.writeChunkFile i) = none) ∧ faults (.persistIndex i) = none) ∧
        s' = after layout repoId (.writeChunk h data) s := by
  unfold writeChunk
  rw [run_bind_of_ok (EStateM.run_get _)]
  cases hknown : ChunkStore.chunkExists s.disk.store h with
  | true =>
      simp only [not_true_eq_false, if_false, reduceCtorEq, false_implies, true_and]
      rw [run_bind_of_ok (EStateM.run_modify _ _), run_check_eq_ok]
  | false =>
      simp only [Bool.false_eq_true, not_false_eq_true, if_true, true_implies]
      rw [run_bind_eq_ok]
      constructor
      · rintro ⟨_, _, hcheck, hrest⟩
        obtain ⟨hfile, rfl⟩ := run_check_eq_ok.mp hcheck
        rw [run_bind_of_ok (EStateM.run_modify _ _)] at hrest
        obtain ⟨hpersist, rfl⟩ := run_check_eq_ok.mp hrest
        exact ⟨⟨hfile, hpersist⟩, rfl⟩
      · rintro ⟨⟨hfile, hpersist⟩, rfl⟩
        refine ⟨(), s, run_check_eq_ok.mpr ⟨hfile, rfl⟩, ?_⟩
        rw [run_bind_of_ok (EStateM.run_modify _ _)]
        exact run_check_eq_ok.mpr ⟨hpersist, rfl⟩

/-- The chunks get written exactly if no write of a chunk fails. -/
theorem run_writeChunks_eq_ok {i : Nat} {chunks : List (ChunkHash × Bytes)} :
    (writeChunks layout repoId faults i chunks).run s = .ok u s' ↔
      ChunksWritten faults i s.disk.store chunks ∧
        s' = { s with disk := { s.disk with
          store := stateAfter (ChunkStore.writeChunks layout repoId chunks)
            s.disk.store } } := by
  induction chunks generalizing i s with
  | nil =>
      constructor
      · rintro ⟨⟩
        exact ⟨chunksWritten_nil i, rfl⟩
      · rintro ⟨_, rfl⟩
        rfl
  | cons c rest ih =>
      obtain ⟨h, data⟩ := c
      rw [writeChunks, run_bind_eq_ok, @chunksWritten_cons layout repoId,
        ChunkStore.stateAfter_writeChunks, List.foldl_cons,
        ← ChunkStore.stateAfter_writeChunks]
      constructor
      · rintro ⟨_, _, hfirst, hrest⟩
        obtain ⟨⟨hfile, hpersist⟩, rfl⟩ := run_writeChunk_eq_ok.mp hfirst
        obtain ⟨hwritten, rfl⟩ := ih.mp hrest
        exact ⟨⟨hfile, hpersist, hwritten⟩, rfl⟩
      · rintro ⟨⟨hfile, hpersist, hwritten⟩, rfl⟩
        exact ⟨(), _, run_writeChunk_eq_ok.mpr ⟨⟨hfile, hpersist⟩, rfl⟩,
          ih.mpr ⟨hwritten, rfl⟩⟩

theorem run_readChunk_eq_ok {i : Nat} {h : ChunkHash} {data : Bytes} :
    (readChunk faults blake3 i h).run s = .ok data s' ↔
      faults (.readChunk i) = none ∧
        ChunkStore.readChunk blake3 s.disk.store h = .ok data ∧ s' = s := by
  unfold readChunk
  rw [run_bind_of_ok (EStateM.run_get _)]
  cases hknown : ChunkStore.chunkExists s.disk.store h with
  | true =>
      simp only [if_true]
      rw [run_bind_eq_ok]
      constructor
      · rintro ⟨_, _, hcheck, hread⟩
        obtain ⟨hpoint, rfl⟩ := run_check_eq_ok.mp hcheck
        exact ⟨hpoint, run_ofResult_eq_ok.mp hread⟩
      · rintro ⟨hpoint, hread⟩
        exact ⟨(), s, run_check_eq_ok.mpr ⟨hpoint, rfl⟩, run_ofResult_eq_ok.mpr hread⟩
  | false =>
      have hnone : ∀ d, ChunkStore.readChunk blake3 s.disk.store h ≠ .ok d := by
        intro d hread
        obtain ⟨e, he, _⟩ := ChunkStore.readChunk_eq_ok_iff.mp hread
        simp [ChunkStore.chunkExists, he] at hknown
      simp only [Bool.false_eq_true, if_false]
      rw [run_ofResult_eq_ok]
      constructor
      · rintro ⟨hread, _⟩
        exact absurd hread (hnone data)
      · rintro ⟨_, hread, _⟩
        exact absurd hread (hnone data)

/-- The verification succeeds if every chunk can be read and is as written. -/
theorem run_verifyChunks_eq_true {i : Nat} {chunks : List (ChunkHash × Bytes)} :
    (verifyChunks faults blake3 i chunks).run s = .ok true s' ↔
      (∀ j < chunks.length, faults (.readChunk (i + j)) = none) ∧
        (∀ c ∈ chunks, ChunkStore.readChunk blake3 s.disk.store c.1 = .ok c.2) ∧
          s' = s := by
  induction chunks generalizing i with
  | nil =>
      constructor
      · rintro ⟨⟩
        exact ⟨by simp, by simp, rfl⟩
      · rintro ⟨_, _, rfl⟩
        rfl
  | cons c rest ih =>
      obtain ⟨h, data⟩ := c
      rw [verifyChunks, run_bind_eq_ok, List.forall_mem_cons, List.length_cons,
        Nat.forall_lt_succ_left]
      simp only [Nat.add_zero, ← Nat.add_assoc, Nat.add_right_comm i _ 1]
      constructor
      · rintro ⟨stored, _, hread, hrest⟩
        obtain ⟨hpoint, hread, rfl⟩ := run_readChunk_eq_ok.mp hread
        by_cases hdata : stored = data
        · subst hdata
          simp only [ne_eq, not_true_eq_false, if_false] at hrest
          obtain ⟨hpoints, hreads, rfl⟩ := ih.mp hrest
          exact ⟨⟨hpoint, hpoints⟩, ⟨hread, hreads⟩, rfl⟩
        · simp only [ne_eq, hdata, not_false_eq_true, if_true] at hrest
          cases hrest
      · rintro ⟨⟨hpoint, hpoints⟩, ⟨hread, hreads⟩, rfl⟩
        refine ⟨data, s', run_readChunk_eq_ok.mpr ⟨hpoint, hread, rfl⟩, ?_⟩
        simp only [ne_eq, not_true_eq_false, if_false]
        exact ih.mpr ⟨hpoints, hreads, rfl⟩

end Steps

section Frames

variable {layout : BadouDataLayout} {repoId : RepositoryId} {faults : Faults}
variable {blake3 : Bytes → ChunkHash} {json : Json} {draws : CommitDraws}
variable {d : RepoDisk} {op : FsOp} {side : Side} {v : Uuid}

/-- A staging directory stays until it is removed. -/
theorem isSome_staging_exec (hop : op ≠ .removeDir side v)
    (h : (d.staging side v).isSome) :
    ((exec layout repoId op d).staging side v).isSome := by
  cases op with
  | appendJournal entry =>
      exact h
  | writeChunk chunkHash data =>
      exact h
  | createDir side' v' =>
      by_cases hside : side = side'
      · subst hside
        by_cases hv : v = v'
        · simp [exec, RepoDisk.setStaging, hv]
        · simpa [exec, RepoDisk.setStaging, hv] using h
      · simpa [exec, RepoDisk.setStaging, hside] using h
  | writeStaged side' v' name data =>
      by_cases hside : side = side'
      · subst hside
        by_cases hv : v = v'
        · subst hv
          simpa [exec, RepoDisk.setStaging] using h
        · simpa [exec, RepoDisk.setStaging, hv] using h
      · simpa [exec, RepoDisk.setStaging, hside] using h
  | renameStaged side' v' name =>
      rw [exec]
      split
      · exact h
      · split
        · exact h
        · by_cases hside : side = side'
          · subst hside
            by_cases hv : v = v'
            · simp [RepoDisk.setStaging, RepoDisk.setFile, hv]
            · simpa [RepoDisk.setStaging, RepoDisk.setFile, hv] using h
          · simpa [RepoDisk.setStaging, RepoDisk.setFile, hside] using h
  | removeDir side' v' =>
      by_cases hside : side = side'
      · subst hside
        by_cases hv : v = v'
        · exact absurd (by rw [hv]) hop
        · simpa [exec, RepoDisk.setStaging, hv] using h
      · simpa [exec, RepoDisk.setStaging, hside] using h
  | write side' name data =>
      exact h
  | rename side' source target =>
      rw [exec]
      split
      · exact h
      · exact h

theorem isSome_staging_after {s : Machine} (hop : op ≠ .removeDir side v)
    (h : (s.disk.staging side v).isSome) :
    ((after layout repoId op s).disk.staging side v).isSome :=
  isSome_staging_exec hop h

/-- Only the writing of a chunk touches the store. -/
theorem store_exec (hop : ∀ chunkHash data, op ≠ .writeChunk chunkHash data) :
    (exec layout repoId op d).store = d.store := by
  cases op with
  | writeChunk chunkHash data =>
      exact absurd rfl (hop chunkHash data)
  | renameStaged side' v' name =>
      rw [exec]
      split
      · rfl
      · split
        · rfl
        · rfl
  | rename side' source target =>
      rw [exec]
      split
      · rfl
      · rfl
  | _ =>
      rfl

theorem staging_removeDir (u : Uuid) (side' : Side) :
    (exec layout repoId (.removeDir side u) d).staging side' u =
      if side' = side then none else d.staging side' u := by
  by_cases hside : side' = side
  · simp [exec, RepoDisk.setStaging, hside]
  · simp [exec, RepoDisk.setStaging, hside]

/-- The program leaves the version table alone, however it ends. -/
def Untouched {α : Type} (x : FaultM α) : Prop :=
  ∀ P : VersionOps → Prop, Preserves x fun s => P s.versions

theorem untouched_bind {α β : Type} {x : FaultM α} {f : α → FaultM β}
    (hx : Untouched x) (hf : ∀ a, Untouched (f a)) : Untouched (x >>= f) :=
  fun P => preserves_bind (hx P) fun a => hf a P

theorem untouched_pure {α : Type} (a : α) : Untouched (pure a : FaultM α) :=
  fun _ => preserves_pure _ _

theorem untouched_check (point : IoPoint) : Untouched (check faults point) := by
  unfold check
  cases faults point with
  | none =>
      exact untouched_pure ()
  | some text =>
      exact fun _ _ h => h

theorem untouched_after (op : FsOp) :
    Untouched (modify (after layout repoId op) : FaultM Unit) :=
  fun _ _ h => h

theorem untouched_perform (point : IoPoint) (op : FsOp) :
    Untouched (perform layout repoId faults point op) :=
  untouched_bind (untouched_check point) fun _ => untouched_after op

theorem untouched_writeChunks (i : Nat) (chunks : List (ChunkHash × Bytes)) :
    Untouched (writeChunks layout repoId faults i chunks) := by
  induction chunks generalizing i with
  | nil =>
      exact untouched_pure ()
  | cons c rest ih =>
      refine untouched_bind ?_ fun _ => ih (i + 1)
      refine untouched_bind (fun _ _ h => h) fun s => ?_
      split
      · refine untouched_bind (untouched_check _) fun _ => ?_
        exact untouched_bind (untouched_after _) fun _ => untouched_check _
      · exact untouched_bind (untouched_after _) fun _ => untouched_check _

theorem untouched_verifyChunks (i : Nat) (chunks : List (ChunkHash × Bytes)) :
    Untouched (verifyChunks faults blake3 i chunks) := by
  induction chunks generalizing i with
  | nil =>
      exact untouched_pure true
  | cons c rest ih =>
      refine untouched_bind ?_ fun stored => ?_
      · refine untouched_bind (fun _ _ h => h) fun s => ?_
        split
        · refine untouched_bind (untouched_check _) fun _ => ?_
          exact fun P => preserves_ofResult _ _ _
        · exact fun P => preserves_ofResult _ _ _
      · split
        · exact untouched_pure false
        · exact ih (i + 1)

theorem untouched_removeDir (side : Side) :
    Untouched (removeDir layout repoId faults draws side) := by
  refine untouched_bind (fun _ _ h => h) fun s => ?_
  split
  · exact untouched_perform _ _
  · exact untouched_pure ()

theorem untouched_cleanupStaging :
    Untouched (cleanupStaging layout repoId faults draws) :=
  untouched_bind (untouched_removeDir _) fun _ => untouched_removeDir _

theorem untouched_failCommit (reason : String) :
    Untouched (failCommit layout repoId faults draws reason) :=
  untouched_bind untouched_cleanupStaging fun _ => untouched_perform _ _

end Frames

end FailedCommit
end Badou
end HyperBackup
