import HyperBackup.Agent.Incremental
import HyperBackup.Lib.CallTree

/-!
# The backups as programs of calls

A full and an incremental backup call the repository, the dedup index and the
journal, one call after the other.  Here they are trees of these calls, so that
they can run against a repository that answers as it likes, with errors in
particular.

If the local repository answers all calls, the trees are the backups of
`Engine` and `Incremental`.
-/

namespace HyperBackup
namespace Agent

open Lib Lib.Program CallTree

/-- The calls of a backup.  The dedup index never fails, and a failed append to
the journal is ignored. -/
inductive RunCall
  | chunkExists (hash : ChunkHash)
  | findChunk (hash : ChunkHash)
  | writeChunk (hash : ChunkHash) (encrypted : EncryptedChunk)
  | readManifest (versionId : VersionId)
  | writeManifest (versionId : VersionId) (manifest : Manifest)
  | batchLookup (hash : ChunkHash)
  | registerNew (hash : ChunkHash) (location : ChunkLocation)
  | addReferences (references : List ChunkReference)
  | appendJournal (entry : JournalEntry)
  | drawChunkId

@[reducible] def RunCall.Answer : RunCall → Type
  | chunkExists _ => Except RepoError Bool
  | findChunk _ => Except RepoError ChunkLocation
  | writeChunk _ _ => Except RepoError ChunkLocation
  | readManifest _ => Except RepoError Manifest
  | writeManifest _ _ => Except RepoError Unit
  | batchLookup _ => Option IndexEntry
  | registerNew _ _ => Unit
  | addReferences _ => Unit
  | appendJournal _ => Unit
  | drawChunkId => ChunkId

abbrev RunM : Type → Type :=
  CallTree RunCall.Answer Halt

-- The methods of the repository, the index and the journal.
namespace RunM

abbrev chunkExists (hash : ChunkHash) : RunM (Except RepoError Bool) :=
  perform (RunCall.chunkExists hash)

abbrev findChunk (hash : ChunkHash) : RunM (Except RepoError ChunkLocation) :=
  perform (RunCall.findChunk hash)

abbrev writeChunk (hash : ChunkHash) (encrypted : EncryptedChunk) :
    RunM (Except RepoError ChunkLocation) :=
  perform (RunCall.writeChunk hash encrypted)

abbrev readManifest (versionId : VersionId) : RunM (Except RepoError Manifest) :=
  perform (RunCall.readManifest versionId)

abbrev writeManifest (versionId : VersionId) (manifest : Manifest) :
    RunM (Except RepoError Unit) :=
  perform (RunCall.writeManifest versionId manifest)

abbrev batchLookup (hash : ChunkHash) : RunM (Option IndexEntry) :=
  perform (RunCall.batchLookup hash)

abbrev registerNew (hash : ChunkHash) (location : ChunkLocation) : RunM Unit :=
  perform (RunCall.registerNew hash location)

abbrev addReferences (references : List ChunkReference) : RunM Unit :=
  perform (RunCall.addReferences references)

abbrev appendJournal (entry : JournalEntry) : RunM Unit :=
  perform (RunCall.appendJournal entry)

abbrev drawChunkId : RunM ChunkId :=
  perform RunCall.drawChunkId

/-- An error of the repository ends the run. -/
def orRepoError {α : Type} (r : Except RepoError α) : RunM α :=
  ofExcept (fun e => .failed (.repo e)) r

end RunM

namespace BackupEngine

section Operations

variable (engine : BackupEngine)

/-- Reserve memory, as `acquireMemory` does. -/
def acquireMemoryCalls (bytes : Nat) : RunM Unit :=
  if bytes = 0 ∨ bytes ≤ engine.memoryLimit then return
  else .fail .waitsForMemory

/-- Compress and encrypt a chunk and write it to the repository. -/
def writeNewChunkCalls (hash : ChunkHash) (data : Bytes) :
    RunM (ChunkLocation × Nat) := do
  let compressed ← ofExcept (fun e => .failed (.compress e)) (engine.compress data)
  let chunkId ← RunM.drawChunkId
  let encrypted ← ofExcept (fun e => .failed (.encrypt e))
    (engine.encryptChunk compressed chunkId)
  engine.acquireMemoryCalls encrypted.ciphertext.length
  let location ← RunM.orRepoError (← RunM.writeChunk hash encrypted)
  RunM.registerNew hash location
  return (location, encrypted.ciphertext.length)

/-- See to it that a chunk is stored. -/
def storeChunkCalls (hash : ChunkHash) (data : Bytes) :
    RunM (ChunkLocation × Nat) := do
  match ← RunM.batchLookup hash with
  | some entry => return (entry.location, 0)
  | none =>
      let present ← RunM.orRepoError (← RunM.chunkExists hash)
      if present then
        let location ← RunM.orRepoError (← RunM.findChunk hash)
        RunM.registerNew hash location
        return (location, 0)
      else engine.writeNewChunkCalls hash data

/-- Store one chunk of a file and record it. -/
def processChunkCalls (versionId : VersionId) (path : String) (p : Progress)
    (chunk : RawChunkData) : RunM Progress := do
  let hash := engine.blake3 chunk.data
  let (location, stored) ← engine.storeChunkCalls hash chunk.data
  return { p with
    chunkLocations := p.chunkLocations.insert hash.toHex location
    dataStored := p.dataStored + stored
    chunkCount := p.chunkCount + 1
    chunkRefs := p.chunkRefs ++ [{
      hash := hash
      versionId := versionId
      filePath := path
      offset := chunk.offset }] }

/-- Cut a file into chunks and store them all. -/
def processFileCalls (versionId : VersionId) (job : BackupJob) (p : Progress)
    (entry : FileEntry) (content : Bytes) : RunM Progress := do
  let chunks ← ofExcept (fun e => .failed (.chunk e))
    (engine.chunker (job.chunkingProfile.toChunkStrategy entry.size) content)
  let p ← chunks.foldlM (engine.processChunkCalls versionId entry.path) p
  return { p with
    files := p.files ++ [engine.completedEntry entry chunks]
    fileCount := p.fileCount + 1
    dataProcessed :=
      p.dataProcessed + (chunks.flatMap RawChunkData.data).length }

/-- Store the new chunks of a file of the baseline. -/
def processModifiedCalls (versionId : VersionId) (job : BackupJob)
    (prevManifest : Manifest) (baselineChunks : List ChunkHash) (p : Progress)
    (entry : FileEntry) (content : Bytes) : RunM Progress := do
  let diff ← ofExcept (fun e => .failed (.chunk e))
    (ChunkDiff.compute engine content baselineChunks
      (job.chunkingProfile.toChunkStrategy entry.size))
  let p ← diff.newChunks.foldlM (engine.processChunkCalls versionId entry.path) p
  let p := diff.reusedChunkRefs.zipIdx.foldl
    (reuseChunk versionId prevManifest entry.path diff) p
  return { p with
    files := p.files ++ [engine.modifiedEntry entry diff]
    dataProcessed := p.dataProcessed +
      (diff.allChunks.flatMap RawChunkData.data).length }

/-- Journal the file that was processed last. -/
def journalProcessedCalls (job : BackupJob) (p : Progress) : RunM Unit :=
  match p.files.getLast? with
  | none => return
  | some entry =>
      RunM.appendJournal (.fileProcessed job.jobId entry.path entry.chunks)

/-- One file of a full backup; a file that cannot be opened is skipped. -/
def backupFileCalls (source : Source) (run : Execution) (job : BackupJob)
    (p : Progress) (entry : FileEntry) : RunM Progress :=
  match source.content entry.path with
  | none => return { p with skippedFiles := p.skippedFiles ++ [entry.path] }
  | some content => do
      let p ← engine.processFileCalls run.versionId job p entry content
      journalProcessedCalls job p
      return p

/-- One file that the scanner sends. -/
def incrementalFileCalls (source : Source) (run : Execution) (job : BackupJob)
    (prevManifest : Manifest) (p : Progress) (entry : FileEntry) :
    RunM Progress :=
  match source.content entry.path with
  | none => return { p with skippedFiles := p.skippedFiles ++ [entry.path] }
  | some content =>
      match (baselineFileChunks prevManifest).lookup entry.path with
      | some baselineChunks =>
          engine.processModifiedCalls run.versionId job prevManifest
            baselineChunks p entry content
      | none => engine.processFileCalls run.versionId job p entry content

/-- Count the references of a version and write its manifest. -/
def commitCalls (manifest : Manifest) : RunM Unit := do
  RunM.addReferences manifest.chunkRefs
  RunM.orRepoError (← RunM.writeManifest manifest.versionId manifest)

def runBackupCalls (source : Source) (run : Execution) (job : BackupJob) :
    RunM BackupResult := do
  RunM.appendJournal (.taskStarted job.jobId run.executionId run.startedAt)
  let p ← (scan source none).foldlM (engine.backupFileCalls source run job) .start
  commitCalls (engine.fullManifest run p)
  RunM.appendJournal (.taskCompleted job.jobId run.versionId
    (backupResult run p run.journaledAfter))
  return backupResult run p run.endedAfter

def runIncrementalBackupCalls (source : Source) (run : Execution)
    (job : BackupJob) (baselineVersionId : VersionId) : RunM BackupResult := do
  let prevManifest ← RunM.orRepoError (← RunM.readManifest baselineVersionId)
  let sent := scan source
    (some (baselineSnapshot baselineVersionId prevManifest))
  let p ← sent.foldlM
    (engine.incrementalFileCalls source run job prevManifest) .start
  let changedPaths := sent.map FileEntry.path
  commitCalls
    (engine.incrementalManifest run baselineVersionId prevManifest changedPaths p)
  return { backupResult run p run.endedAfter with
    fileCount := p.files.length +
      (unchangedFiles prevManifest changedPaths).length }

end Operations

section Local

variable (engine : BackupEngine)

/-- How the local repository, the index and the journal answer a call. -/
def answerLocally : (c : RunCall) → EngineM c.Answer
  | .chunkExists hash => do
      let s ← get
      return .ok (LocalRepository.chunkExists engine.root s.files hash)
  | .findChunk hash => do
      let s ← get
      return LocalRepository.findChunk engine.root s.files hash
  | .writeChunk hash encrypted => do
      let s ← get
      let written := LocalRepository.writeChunk engine.root hash encrypted s.files
      set { s with files := written.2 }
      return .ok written.1
  | .readManifest versionId => do
      let s ← get
      return LocalRepository.readManifest engine.root engine.json s.files versionId
  | .writeManifest versionId manifest => do
      modify fun s =>
        { s with
          files := LocalRepository.writeManifest engine.root engine.json versionId
            manifest s.files }
      return .ok ()
  | .batchLookup hash => do
      let s ← get
      return s.index.lookup hash
  | .registerNew hash location =>
      modify fun s =>
        { s with index := LocalDedupIndex.registerNew s.index hash location }
  | .addReferences references =>
      modify fun s =>
        { s with index := LocalDedupIndex.addReferences s.index references }
  | .appendJournal entry => engine.appendJournal entry
  | .drawChunkId => do
      let s ← get
      set { s with chunkIdsDrawn := s.chunkIdsDrawn + 1 }
      return engine.newChunkId s.chunkIdsDrawn

variable {engine}

theorem interpret_acquireMemoryCalls (bytes : Nat) :
    interpret engine.answerLocally (engine.acquireMemoryCalls bytes) =
      engine.acquireMemory bytes := by
  unfold acquireMemoryCalls acquireMemory
  split
  · rfl
  · rfl

theorem interpret_writeNewChunkCalls (hash : ChunkHash) (data : Bytes) :
    interpret engine.answerLocally (engine.writeNewChunkCalls hash data) =
      engine.writeNewChunk hash data := by
  rw [writeNewChunkCalls, interpret_bind, interpret_ofExcept]
  refine bind_congr fun compressed => ?_
  rw [interpret_bind, interpret_perform]
  have hdraw : ∀ f : ChunkId → EngineM (ChunkLocation × Nat),
      (engine.answerLocally .drawChunkId >>= f) = (do
        let s ← get
        set { s with chunkIdsDrawn := s.chunkIdsDrawn + 1 }
        f (engine.newChunkId s.chunkIdsDrawn)) :=
    fun f => rfl
  rw [hdraw]
  refine bind_congr fun s => bind_congr fun _ => ?_
  rw [interpret_bind, interpret_ofExcept]
  refine bind_congr fun encrypted => ?_
  rw [interpret_bind, interpret_acquireMemoryCalls]
  refine bind_congr fun _ => ?_
  rfl

theorem interpret_storeChunkCalls (hash : ChunkHash) (data : Bytes) :
    interpret engine.answerLocally (engine.storeChunkCalls hash data) =
      engine.storeChunk hash data := by
  funext s
  rw [storeChunkCalls, interpret_bind, interpret_perform]
  refine (run_bind_of_ok (x := engine.answerLocally (.batchLookup hash))
    (s := s) rfl).trans ?_
  refine Eq.trans ?_ (run_bind_of_ok (x := (get : EngineM AgentState))
    (s := s) rfl).symm
  cases hknown : s.index.lookup hash with
  | some entry =>
      rfl
  | none =>
      simp only
      rw [interpret_bind, interpret_perform]
      refine (run_bind_of_ok (x := engine.answerLocally (.chunkExists hash))
        (s := s) rfl).trans ?_
      cases hexists : LocalRepository.chunkExists engine.root s.files hash with
      | true =>
          have hfind : LocalRepository.findChunk engine.root s.files hash =
              .ok (chunkLocation hash) := if_pos hexists
          have hanswer : (engine.answerLocally (.findChunk hash)).run s =
              .ok (LocalRepository.findChunk engine.root s.files hash) s := rfl
          rw [hfind] at hanswer
          rw [if_pos rfl, hfind]
          change EStateM.run (engine.answerLocally (.findChunk hash) >>= fun r =>
            interpret engine.answerLocally (do
              let location ← RunM.orRepoError r
              RunM.registerNew hash location
              return (location, 0))) s = _
          rw [run_bind_of_ok hanswer]
          rfl
      | false =>
          exact congrFun (interpret_writeNewChunkCalls hash data) s

theorem interpret_processChunkCalls (versionId : VersionId) (path : String)
    (p : Progress) (chunk : RawChunkData) :
    interpret engine.answerLocally
        (engine.processChunkCalls versionId path p chunk) =
      engine.processChunk versionId path p chunk := by
  rw [processChunkCalls, interpret_bind, interpret_storeChunkCalls]
  rfl

theorem interpret_processFileCalls (versionId : VersionId) (job : BackupJob)
    (p : Progress) (entry : FileEntry) (content : Bytes) :
    interpret engine.answerLocally
        (engine.processFileCalls versionId job p entry content) =
      engine.processFile versionId job p entry content := by
  rw [processFileCalls, interpret_bind, interpret_ofExcept]
  refine bind_congr fun chunks => ?_
  rw [interpret_bind, interpret_foldlM]
  simp only [interpret_processChunkCalls]
  rfl

theorem interpret_processModifiedCalls (versionId : VersionId) (job : BackupJob)
    (prevManifest : Manifest) (baselineChunks : List ChunkHash) (p : Progress)
    (entry : FileEntry) (content : Bytes) :
    interpret engine.answerLocally (engine.processModifiedCalls versionId job
        prevManifest baselineChunks p entry content) =
      engine.processModified versionId job prevManifest baselineChunks p entry
        content := by
  rw [processModifiedCalls, interpret_bind, interpret_ofExcept]
  refine bind_congr fun diff => ?_
  rw [interpret_bind, interpret_foldlM]
  simp only [interpret_processChunkCalls]
  rfl

theorem interpret_backupFileCalls (source : Source) (run : Execution)
    (job : BackupJob) (p : Progress) (entry : FileEntry) :
    interpret engine.answerLocally
        (engine.backupFileCalls source run job p entry) =
      engine.backupFile source run job p entry := by
  have hjournal : ∀ p : Progress,
      interpret engine.answerLocally (journalProcessedCalls job p) =
        engine.journalProcessed job p := by
    intro p
    unfold journalProcessedCalls journalProcessed
    cases p.files.getLast? with
    | none =>
        rfl
    | some entry =>
        exact interpret_perform _
  unfold backupFileCalls backupFile
  cases source.content entry.path with
  | none =>
      rfl
  | some content =>
      simp only [interpret_bind, interpret_processFileCalls, hjournal, interpret_pure]

theorem interpret_incrementalFileCalls (source : Source) (run : Execution)
    (job : BackupJob) (prevManifest : Manifest) (p : Progress)
    (entry : FileEntry) :
    interpret engine.answerLocally
        (engine.incrementalFileCalls source run job prevManifest p entry) =
      engine.incrementalFile source run job prevManifest p entry := by
  unfold incrementalFileCalls incrementalFile
  cases source.content entry.path with
  | none =>
      rfl
  | some content =>
      cases (baselineFileChunks prevManifest).lookup entry.path with
      | none =>
          exact interpret_processFileCalls _ _ _ _ _
      | some baselineChunks =>
          exact interpret_processModifiedCalls _ _ _ _ _ _ _

theorem interpret_commitCalls (manifest : Manifest) :
    interpret engine.answerLocally (commitCalls manifest) =
      engine.commitVersion manifest :=
  rfl

/-- With the local repository, the calls of a full backup are the backup. -/
theorem interpret_runBackupCalls (source : Source) (run : Execution)
    (job : BackupJob) :
    interpret engine.answerLocally (engine.runBackupCalls source run job) =
      engine.runBackup source run job := by
  rw [runBackupCalls, interpret_bind, interpret_perform]
  simp only [interpret_bind, interpret_foldlM, interpret_backupFileCalls,
    interpret_commitCalls, interpret_perform, runBackup, collectFull, bind_assoc,
    completeBackup, interpret_pure]
  rfl

/-- With the local repository, the calls of an incremental backup are the
backup. -/
theorem interpret_runIncrementalBackupCalls (source : Source) (run : Execution)
    (job : BackupJob) (baselineVersionId : VersionId) :
    interpret engine.answerLocally
        (engine.runIncrementalBackupCalls source run job baselineVersionId) =
      engine.runIncrementalBackup source run job baselineVersionId := by
  simp only [runIncrementalBackupCalls, interpret_bind, interpret_foldlM,
    interpret_incrementalFileCalls, interpret_commitCalls, interpret_perform,
    interpret_ofExcept, RunM.orRepoError, runIncrementalBackup,
    collectIncremental, bind_assoc, interpret_pure, pure_bind]
  rfl

end Local

end BackupEngine

end Agent
end HyperBackup
