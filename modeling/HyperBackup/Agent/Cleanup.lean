import HyperBackup.Agent.Repo
import Mathlib.Data.List.Dedup

/-!
# Cleanup of old versions

`CleanupExecutor` takes the decision of a retention policy and removes the
chunks that only versions to delete refer to.  What it wants to delete is
compared with what the manifests of the kept versions refer to; a manifest
that cannot be read just now counts as empty.

A chunk that a remaining version needs survives exactly if it is not shared
with a version to delete, or if some kept version whose manifest was read
refers to it.  Versions that were skipped because they are in use, versions
that the decision does not mention, and kept versions whose manifest could not
be read protect nothing.
-/

namespace HyperBackup
namespace Agent

open Lib

structure RetentionDecision where
  keep : List VersionId
  delete : List VersionId

structure CleanupResult where
  deletedVersions : List VersionId
  reclaimedChunks : List ChunkHash
  skippedInUse : List VersionId
deriving DecidableEq

namespace LocalRepository

def lockPath (root : String) (lockId : Uuid) : String :=
  Path.join (Path.join root "locks") (uuidText lockId ++ ".lock")

/-- Leave a lock file with the given text. -/
def acquireLock (root : String) (lockId : Uuid) (text : Bytes)
    (files : Files) : Files :=
  Files.write files (lockPath root lockId) text

end LocalRepository

namespace CleanupExecutor

open LocalRepository

/-- The executor: its repository, the versions in use, and what one execution
meets: which reads of a manifest fail, the order of a hash set, and the lock. -/
structure Executor where
  root : String
  json : ManifestJson
  inUseVersions : List VersionId
  readFails : Nat → Bool
  order : IterOrder ChunkHash
  lockId : Uuid
  lockText : Bytes

section Operations

variable (executor : Executor)

/-- The chunks that the manifest of a version refers to, at the read with the
given number. -/
def readChunkRefs (files : Files) (vid : VersionId) (read : Nat) :
    List ChunkHash :=
  if executor.readFails read then []
  else
    match readManifest executor.root executor.json files vid with
    | .ok manifest => manifest.chunkRefs.map ChunkReference.hash
    | .error _ => []

/-- The chunks of several versions, read one after the other. -/
def readAllChunkRefs (files : Files) (firstRead : Nat)
    (vids : List VersionId) : List ChunkHash :=
  (vids.zipIdx firstRead).flatMap fun e =>
    readChunkRefs executor files e.1 e.2

def toDelete (decision : RetentionDecision) : List VersionId :=
  decision.delete.filter fun vid => vid ∉ executor.inUseVersions

def skipped (decision : RetentionDecision) : List VersionId :=
  decision.delete.filter fun vid => vid ∈ executor.inUseVersions

def chunksInDeleted (decision : RetentionDecision) (files : Files) :
    List ChunkHash :=
  readAllChunkRefs executor files 0 (toDelete executor decision)

/-- The manifests of the kept versions are read after the others. -/
def remainingChunks (decision : RetentionDecision) (files : Files) :
    List ChunkHash :=
  readAllChunkRefs executor files (toDelete executor decision).length
    decision.keep

def orphaned (decision : RetentionDecision) (files : Files) : List ChunkHash :=
  (executor.order.arrange (chunksInDeleted executor decision files).dedup).filter
    fun h => h ∉ remainingChunks executor decision files

/-- Delete the file of an orphaned chunk, if it is there. -/
def reclaimChunk (acc : Files × List ChunkHash) (hash : ChunkHash) :
    Files × List ChunkHash :=
  match findChunk executor.root acc.1 hash with
  | .ok location =>
      (deleteChunk executor.root location acc.1, acc.2 ++ [hash])
  | .error _ => acc

def execute (decision : RetentionDecision) (files : Files) :
    CleanupResult × Files :=
  let files := acquireLock executor.root executor.lockId executor.lockText files
  let acc := (orphaned executor decision files).foldl (reclaimChunk executor)
    (files, [])
  ({ deletedVersions := toDelete executor decision
     reclaimedChunks := acc.2
     skippedInUse := skipped executor decision }, acc.1)

end Operations

section Specs

variable {executor : Executor}

theorem lockPath_ne_chunkPath (lockId : Uuid) (h : ChunkHash) (root : String) :
    lockPath root lockId ≠ chunkPath root h := by
  intro heq
  have hname : chunkFilename h = (h.toHex ++ ".") ++ "chunk" := by
    rw [String.append_assoc]
    rfl
  unfold lockPath chunkPath locationPath chunkLocation at heq
  rw [hname] at heq
  exact absurd (Path.join_right_suffix_injective (by decide) heq) (by decide)

theorem lockPath_ne_manifestPath
    (lockId : Uuid) (v : VersionId) (root : String) :
    lockPath root lockId ≠ manifestPath root v := by
  intro heq
  have hname : manifestFilename v = (uuidText v.uuid ++ ".man") ++ "ifest" := by
    rw [String.append_assoc]
    rfl
  unfold lockPath manifestPath at heq
  rw [hname] at heq
  exact absurd (Path.join_right_suffix_injective (by decide) heq) (by decide)

theorem chunkExists_acquireLock
    (root : String) (lockId : Uuid) (text : Bytes) (files : Files)
    (h : ChunkHash) :
    chunkExists root (acquireLock root lockId text files) h =
      chunkExists root files h := by
  simp [chunkExists, acquireLock, (lockPath_ne_chunkPath lockId h root).symm]

/-- The lock leaves the manifests alone. -/
theorem readManifest_acquireLock
    (root : String) (json : ManifestJson) (lockId : Uuid) (text : Bytes)
    (files : Files) (v : VersionId) :
    readManifest root json (acquireLock root lockId text files) v =
      readManifest root json files v := by
  simp [readManifest, readFile, acquireLock,
    (lockPath_ne_manifestPath lockId v root).symm]

theorem readAllChunkRefs_acquireLock
    (lockId : Uuid) (text : Bytes) (files : Files) (firstRead : Nat)
    (vids : List VersionId) :
    readAllChunkRefs executor (acquireLock executor.root lockId text files)
        firstRead vids =
      readAllChunkRefs executor files firstRead vids := by
  simp only [readAllChunkRefs, readChunkRefs, readManifest_acquireLock]

/-- Reclaiming a chunk removes that chunk and no other. -/
theorem chunkExists_reclaimChunk
    (acc : Files × List ChunkHash) (hash h : ChunkHash) :
    chunkExists executor.root (reclaimChunk executor acc hash).1 h =
      (chunkExists executor.root acc.1 h && decide (h ≠ hash)) := by
  by_cases hhash : chunkExists executor.root acc.1 hash
  · have hfind : findChunk executor.root acc.1 hash = .ok (chunkLocation hash) :=
      if_pos hhash
    simp only [reclaimChunk, hfind]
    exact chunkExists_deleteChunk hash h
  · have hfind : findChunk executor.root acc.1 hash =
        .error (.failed "chunk not found") :=
      if_neg hhash
    simp only [reclaimChunk, hfind]
    by_cases heq : h = hash
    · subst heq
      simp [hhash]
    · simp [heq]

/-- After the loop exactly the orphaned chunks are gone. -/
theorem chunkExists_foldl_reclaimChunk (hashes : List ChunkHash) (h : ChunkHash) :
    ∀ acc : Files × List ChunkHash,
      chunkExists executor.root (hashes.foldl (reclaimChunk executor) acc).1 h =
        (chunkExists executor.root acc.1 h && decide (h ∉ hashes)) := by
  induction hashes with
  | nil =>
      intro acc
      simp
  | cons hash hashes ih =>
      intro acc
      rw [List.foldl_cons, ih, chunkExists_reclaimChunk, Bool.and_assoc,
        ← Bool.decide_and]
      simp [not_or]

theorem mem_orphaned (decision : RetentionDecision) (files : Files)
    (h : ChunkHash) :
    h ∈ orphaned executor decision files ↔
      h ∈ chunksInDeleted executor decision files ∧
        h ∉ remainingChunks executor decision files := by
  simp [orphaned]

/-- What an execution leaves of the chunks. -/
theorem chunkExists_execute
    (decision : RetentionDecision) (files : Files) (h : ChunkHash) :
    chunkExists executor.root (execute executor decision files).2 h ↔
      chunkExists executor.root files h ∧
        ¬ (h ∈ chunksInDeleted executor decision files ∧
          h ∉ remainingChunks executor decision files) := by
  have hrefs : ∀ firstRead vids, readAllChunkRefs executor
      (acquireLock executor.root executor.lockId executor.lockText files)
        firstRead vids = readAllChunkRefs executor files firstRead vids :=
    readAllChunkRefs_acquireLock _ _ files
  simp only [execute, chunkExists_foldl_reclaimChunk, chunkExists_acquireLock,
    Bool.and_eq_true, decide_eq_true_eq, mem_orphaned]
  simp only [chunksInDeleted, remainingChunks, hrefs]

end Specs

section Safety

variable (executor : Executor) (decision : RetentionDecision)

/-- A stored version that is not deleted refers to the chunk. -/
def Needed (files : Files) (h : ChunkHash) : Prop :=
  ∃ v m, v ∉ toDelete executor decision ∧
    readManifest executor.root executor.json files v = .ok m ∧
      h ∈ m.chunkRefs.map ChunkReference.hash

/-- No chunk that a stored version needs has been deleted. -/
def NeededChunksKept (files : Files) (outcome : CleanupResult × Files) : Prop :=
  ∀ v m, v ∉ outcome.1.deletedVersions →
    readManifest executor.root executor.json files v = .ok m →
      ∀ ref ∈ m.chunkRefs, chunkExists executor.root files ref.hash →
        chunkExists executor.root outcome.2 ref.hash

/-- Cleanup keeps every needed chunk iff every present chunk that a version to
delete shares with a remaining version is also in a kept version whose
manifest is read. -/
theorem neededChunksKept_execute_iff (files : Files) :
    NeededChunksKept executor files (execute executor decision files) ↔
      ∀ h ∈ chunksInDeleted executor decision files,
        chunkExists executor.root files h → Needed executor decision files h →
          h ∈ remainingChunks executor decision files := by
  constructor
  · rintro hkept h hdeleted hexists ⟨v, m, hv, hm, hh⟩
    obtain ⟨ref, href, rfl⟩ := List.mem_map.mp hh
    have hleft := hkept v m hv hm ref href hexists
    by_contra hnot
    exact ((chunkExists_execute decision files _).mp hleft).2 ⟨hdeleted, hnot⟩
  · intro hcond v m hv hm ref href hexists
    refine (chunkExists_execute decision files _).mpr ⟨hexists, ?_⟩
    rintro ⟨hdeleted, hnot⟩
    exact hnot (hcond ref.hash hdeleted hexists
      ⟨v, m, hv, hm, List.mem_map.mpr ⟨ref, href, rfl⟩⟩)

end Safety

section Example

/-- A version with one file whose only chunk is that of no bytes. -/
def emptyChunkVersion (n : Nat) : Manifest where
  versionId := ⟨BitVec.ofNat 128 n⟩
  timestamp := 0
  parentVersionId := none
  versionNumber := 1
  backupType := .full
  files := []
  chunkRefs := [{
    hash := .ofEmpty
    versionId := ⟨BitVec.ofNat 128 n⟩
    filePath := "/data/a"
    offset := 0 }]
  hashes := {
    manifestHash := zeroDigest
    fileIndexHash := zeroDigest
    chunkIndexHash := zeroDigest
    repoHash := zeroDigest }
  chunkLocations := ∅

/-- A repository with two versions that share their only chunk. -/
def sharedChunkFiles (json : ManifestJson) : Files :=
  Files.write (Files.write (Files.write ∅
    (manifestPath "/repo" ⟨BitVec.ofNat 128 1⟩)
      (json.toVec (emptyChunkVersion 1)))
    (manifestPath "/repo" ⟨BitVec.ofNat 128 2⟩)
      (json.toVec (emptyChunkVersion 2)))
    (chunkPath "/repo" .ofEmpty) (List.replicate 28 0)

/-- The second version is in use; every manifest can be read. -/
def inUseExecutor (json : ManifestJson) : Executor where
  root := "/repo"
  json := json
  inUseVersions := [⟨BitVec.ofNat 128 2⟩]
  readFails := fun _ => false
  order := .asStored
  lockId := 3
  lockText := []

/-- The policy has both versions to be deleted. -/
def deleteBoth : RetentionDecision where
  keep := []
  delete := [⟨BitVec.ofNat 128 1⟩, ⟨BitVec.ofNat 128 2⟩]

theorem manifestPath_repo_ne :
    manifestPath "/repo" ⟨BitVec.ofNat 128 1⟩ ≠
      manifestPath "/repo" ⟨BitVec.ofNat 128 2⟩ := by
  decide +kernel

/-- Deleting a version takes a chunk away from a version in use. -/
theorem neededChunksKept_fails_for_version_in_use :
    ¬ ∃ json : ManifestJson,
      json.fromSlice (json.toVec (emptyChunkVersion 1)) =
          .ok (emptyChunkVersion 1) ∧
        json.fromSlice (json.toVec (emptyChunkVersion 2)) =
          .ok (emptyChunkVersion 2) ∧
        NeededChunksKept (inUseExecutor json) (sharedChunkFiles json)
          (execute (inUseExecutor json) deleteBoth (sharedChunkFiles json)) := by
  rintro ⟨json, hjson₁, hjson₂, hkept⟩
  have hread₁ : readManifest "/repo" json (sharedChunkFiles json)
      ⟨BitVec.ofNat 128 1⟩ = .ok (emptyChunkVersion 1) := by
    refine readManifest_eq_ok ?_ hjson₁
    simp only [sharedChunkFiles, Files.lookup_write,
      if_neg (manifestPath_ne_chunkPath _ _), if_neg manifestPath_repo_ne,
      if_pos]
  have hread₂ : readManifest "/repo" json (sharedChunkFiles json)
      ⟨BitVec.ofNat 128 2⟩ = .ok (emptyChunkVersion 2) := by
    refine readManifest_eq_ok ?_ hjson₂
    simp only [sharedChunkFiles, Files.lookup_write,
      if_neg (manifestPath_ne_chunkPath _ _), if_pos]
  have hexists : chunkExists "/repo" (sharedChunkFiles json) .ofEmpty := by
    simp [chunkExists, sharedChunkFiles]
  have hdelete : toDelete (inUseExecutor json) deleteBoth =
      [⟨BitVec.ofNat 128 1⟩] := by
    rfl
  have hinDeleted : ChunkHash.ofEmpty ∈ chunksInDeleted (inUseExecutor json)
      deleteBoth (sharedChunkFiles json) := by
    have hrefs : readChunkRefs (inUseExecutor json) (sharedChunkFiles json)
        ⟨BitVec.ofNat 128 1⟩ 0 = [.ofEmpty] := by
      simp only [readChunkRefs, inUseExecutor, hread₁]
      rfl
    simp only [chunksInDeleted, readAllChunkRefs, hdelete, List.zipIdx_cons,
      List.zipIdx_nil, List.flatMap_cons, List.flatMap_nil, hrefs]
    simp
  have hstays : (⟨BitVec.ofNat 128 2⟩ : VersionId) ∉
      (execute (inUseExecutor json) deleteBoth
        (sharedChunkFiles json)).1.deletedVersions := by
    change _ ∉ toDelete (inUseExecutor json) deleteBoth
    rw [hdelete]
    decide
  have hleft := hkept ⟨BitVec.ofNat 128 2⟩ (emptyChunkVersion 2) hstays hread₂ _
    (List.mem_singleton_self _) hexists
  refine ((chunkExists_execute _ _ _).mp hleft).2 ⟨hinDeleted, ?_⟩
  simp [remainingChunks, readAllChunkRefs, deleteBoth]

end Example

end CleanupExecutor
end Agent
end HyperBackup
