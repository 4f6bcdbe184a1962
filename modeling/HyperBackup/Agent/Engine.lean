import HyperBackup.Agent.Chunker
import HyperBackup.Agent.Journal
import HyperBackup.Agent.Json
import HyperBackup.Agent.Repo
import HyperBackup.Agent.Scanner
import HyperBackup.Lib.Sha256

/-!
# The backup engine

A full backup scans the source, cuts every file into chunks, stores the chunks
that are not known yet and writes a manifest of what it did.  The resumable
form skips the files that the journal reports as processed.

A run works on the files of the machine, the dedup index and the journal.  It
stops early with an error, waits for memory that nobody will release, or is
cut off after a journal append.
-/

namespace HyperBackup
namespace Agent

open Lib Lib.Program

/-- What the agent uses from elsewhere: hashing, compression, encryption, JSON
and the place of the repository. -/
structure Platform where
  root : String
  json : ManifestJson
  blake3 : Bytes → ChunkHash
  sha256 : Bytes → HashDigest
  compress : Bytes → Except CompressError Bytes
  decompress : Bytes → Except CompressError Bytes
  encryptChunk : Bytes → ChunkId → Except EncryptError EncryptedChunk
  decryptChunk : EncryptedChunk → Except EncryptError Bytes

/-- The engine: its chunker, its memory budget, the journal's measures and the
chunk identifiers it will draw. -/
structure BackupEngine extends Platform where
  chunker : ChunkStrategy → Bytes → Except ChunkError (List RawChunkData)
  memoryLimit : Nat
  rotationSize : Nat
  recordLength : JournalEntry → Nat
  newChunkId : Nat → ChunkId

structure IndexEntry where
  location : ChunkLocation
  referenceCount : Nat
deriving DecidableEq

abbrev LocalDedupIndex : Type :=
  HashMap ChunkHash IndexEntry

namespace LocalDedupIndex

def registerNew (index : LocalDedupIndex) (hash : ChunkHash)
    (location : ChunkLocation) : LocalDedupIndex :=
  index.insert hash { location := location, referenceCount := 0 }

/-- Count one reference more for every listed chunk that is registered. -/
def addReferences (index : LocalDedupIndex) (references : List ChunkReference) :
    LocalDedupIndex :=
  references.foldl (fun index reference =>
    HashMap.modify index reference.hash fun entry =>
      { entry with referenceCount := entry.referenceCount + 1 }) index

theorem lookup_registerNew
    (index : LocalDedupIndex) (hash h : ChunkHash) (location : ChunkLocation) :
    (registerNew index hash location).lookup h =
      if h = hash then some { location := location, referenceCount := 0 }
      else index.lookup h :=
  HashMap.lookup_insert_of _ _ _ _

/-- Counting references moves no chunk. -/
theorem location_lookup_addReferences
    (references : List ChunkReference) (h : ChunkHash) :
    ∀ index : LocalDedupIndex,
      ((addReferences index references).lookup h).map IndexEntry.location =
        (index.lookup h).map IndexEntry.location := by
  unfold addReferences
  induction references with
  | nil =>
      intro index
      rfl
  | cons reference references ih =>
      intro index
      rw [List.foldl_cons, ih, HashMap.lookup_modify]
      split
      · next heq =>
          subst heq
          cases index.lookup reference.hash with
          | none =>
              rfl
          | some entry =>
              rfl
      · rfl

end LocalDedupIndex

/-- The state a run works on.  `appendsLeft` is the number of journal appends
that the run survives before it is cut off after the next one. -/
structure AgentState where
  files : Files
  index : LocalDedupIndex
  journal : Option Journal
  chunkIdsDrawn : Nat
  appendsLeft : Option Nat

inductive EngineError
  | chunk (error : ChunkError)
  | compress (error : CompressError)
  | encrypt (error : EncryptError)
  | repo (error : RepoError)
  | failed (text : String)
deriving DecidableEq

/-- Why a run does not return. -/
inductive Halt
  | failed (error : EngineError)
  | waitsForMemory
  | crashed
deriving DecidableEq

abbrev EngineM : Type → Type :=
  EStateM Halt AgentState

/-- What a run draws or reads off the clock. -/
structure Execution where
  versionId : VersionId
  executionId : ExecutionId
  startedAt : UInt64
  committedAt : DateTime
  journaledAfter : Duration
  endedAfter : Duration

/-- What a run has collected so far. -/
structure Progress where
  files : List FileEntry
  chunkRefs : List ChunkReference
  chunkLocations : HashMap String ChunkLocation
  dataProcessed : Nat
  dataStored : Nat
  chunkCount : Nat
  fileCount : Nat
  skippedFiles : List String

def Progress.start : Progress where
  files := []
  chunkRefs := []
  chunkLocations := ∅
  dataProcessed := 0
  dataStored := 0
  chunkCount := 0
  fileCount := 0
  skippedFiles := []

namespace BackupEngine

section Operations

variable (engine : BackupEngine)

/-- Append to the journal, if there is one; a failed append is ignored. -/
def appendJournal (entry : JournalEntry) : EngineM Unit := fun s =>
  match s.journal with
  | none => .ok () s
  | some journal =>
      let appended := journal.append engine.rotationSize
        (engine.recordLength entry) entry
      match s.appendsLeft with
      | none => .ok () { s with journal := some appended }
      | some 0 => .error .crashed { s with journal := some appended }
      | some (n + 1) =>
          .ok () { s with journal := some appended, appendsLeft := some n }

/-- Reserve memory.  The guard of one chunk is dropped before the next chunk
asks, so nothing else is in use, and a request beyond the limit is never
met. -/
def acquireMemory (bytes : Nat) : EngineM Unit :=
  if bytes = 0 ∨ bytes ≤ engine.memoryLimit then pure ()
  else throw .waitsForMemory

/-- Compress and encrypt a chunk and write it to the repository. -/
def writeNewChunk (hash : ChunkHash) (data : Bytes) :
    EngineM (ChunkLocation × Nat) := do
  let compressed ← ofResult (fun e => .failed (.compress e)) (engine.compress data)
  let s ← get
  set { s with chunkIdsDrawn := s.chunkIdsDrawn + 1 }
  let encrypted ← ofResult (fun e => .failed (.encrypt e))
    (engine.encryptChunk compressed (engine.newChunkId s.chunkIdsDrawn))
  engine.acquireMemory encrypted.ciphertext.length
  modify fun s =>
    { s with
      files := (LocalRepository.writeChunk engine.root hash encrypted s.files).2
      index := LocalDedupIndex.registerNew s.index hash
        (LocalRepository.writeChunk engine.root hash encrypted s.files).1 }
  return (chunkLocation hash, encrypted.ciphertext.length)

/-- See to it that a chunk is stored; where it is, and how many bytes were
written for it.  An entry of the local index always has a location. -/
def storeChunk (hash : ChunkHash) (data : Bytes) :
    EngineM (ChunkLocation × Nat) := do
  let s ← get
  match s.index.lookup hash with
  | some entry => return (entry.location, 0)
  | none =>
      if LocalRepository.chunkExists engine.root s.files hash then do
        let location ← ofResult (fun e => .failed (.repo e))
          (LocalRepository.findChunk engine.root s.files hash)
        set { s with
          index := LocalDedupIndex.registerNew s.index hash location }
        return (location, 0)
      else engine.writeNewChunk hash data

/-- Store one chunk of a file and record it. -/
def processChunk (versionId : VersionId) (path : String)
    (p : Progress) (chunk : RawChunkData) : EngineM Progress := do
  let hash := engine.blake3 chunk.data
  let (location, stored) ← engine.storeChunk hash chunk.data
  return { p with
    chunkLocations := p.chunkLocations.insert hash.toHex location
    dataStored := p.dataStored + stored
    chunkCount := p.chunkCount + 1
    chunkRefs := p.chunkRefs ++ [{
      hash := hash
      versionId := versionId
      filePath := path
      offset := chunk.offset }] }

/-- The manifest entry of a scanned file with the given chunks; the file hash
is over their data in the given order. -/
def completedEntry (entry : FileEntry) (chunks : List RawChunkData) :
    FileEntry :=
  { entry with
    chunks := chunks.map fun chunk => engine.blake3 chunk.data
    fileHash := engine.sha256 (chunks.flatMap RawChunkData.data) }

/-- Cut a file into chunks and store them all. -/
def processFile (versionId : VersionId) (job : BackupJob) (p : Progress)
    (entry : FileEntry) (content : Bytes) : EngineM Progress := do
  let chunks ← ofResult (fun e => .failed (.chunk e))
    (engine.chunker (job.chunkingProfile.toChunkStrategy entry.size) content)
  let p ← chunks.foldlM (engine.processChunk versionId entry.path) p
  return { p with
    files := p.files ++ [engine.completedEntry entry chunks]
    fileCount := p.fileCount + 1
    dataProcessed :=
      p.dataProcessed + (chunks.flatMap RawChunkData.data).length }

/-- Journal the file that was processed last. -/
def journalProcessed (job : BackupJob) (p : Progress) : EngineM Unit :=
  match p.files.getLast? with
  | none => pure ()
  | some entry =>
      engine.appendJournal (.fileProcessed job.jobId entry.path entry.chunks)

def buildManifest (run : Execution) (parentVersionId : Option VersionId)
    (versionNumber : Nat) (backupType : BackupType) (files : List FileEntry)
    (chunkRefs : List ChunkReference)
    (chunkLocations : HashMap String ChunkLocation) : Manifest :=
  let fileIndexHash := engine.sha256
    (files.flatMap fun file => file.fileHash.toList)
  let chunkIndexHash := engine.sha256
    (chunkRefs.flatMap fun cr => cr.hash.digest.toList)
  let tempManifest : Manifest :=
    { versionId := run.versionId
      timestamp := run.committedAt
      parentVersionId := parentVersionId
      versionNumber := versionNumber
      backupType := backupType
      files := files
      chunkRefs := chunkRefs
      hashes := {
        manifestHash := zeroDigest
        fileIndexHash := fileIndexHash
        chunkIndexHash := chunkIndexHash
        repoHash := zeroDigest }
      chunkLocations := chunkLocations }
  let manifestHash := engine.sha256 (engine.json.toVec tempManifest)
  let repoHash := engine.sha256
    (manifestHash.toList ++ fileIndexHash.toList ++ chunkIndexHash.toList)
  { tempManifest with
    hashes := {
      manifestHash := manifestHash
      fileIndexHash := fileIndexHash
      chunkIndexHash := chunkIndexHash
      repoHash := repoHash } }

/-- Count the references of a version and write its manifest. -/
def commitVersion (manifest : Manifest) : EngineM Unit :=
  modify fun s =>
    { s with
      index := LocalDedupIndex.addReferences s.index manifest.chunkRefs
      files := LocalRepository.writeManifest engine.root engine.json
        manifest.versionId manifest s.files }

/-- The manifest of a full backup. -/
def fullManifest (run : Execution) (p : Progress) : Manifest :=
  engine.buildManifest run none 1 .full p.files p.chunkRefs p.chunkLocations

/-- The result of a run, reported when the given time has passed. -/
def backupResult (run : Execution) (p : Progress) (elapsed : Duration) :
    BackupResult where
  versionId := some run.versionId
  dataProcessed := p.dataProcessed
  dataStored := p.dataStored
  dedupRatio := computeDedupRatio p.dataProcessed p.dataStored
  chunkCount := p.chunkCount
  fileCount := p.fileCount
  duration := elapsed
  skippedFiles := p.skippedFiles

/-- Commit a full backup and journal that it is complete. -/
def completeBackup (run : Execution) (job : BackupJob) (p : Progress) :
    EngineM BackupResult := do
  engine.commitVersion (engine.fullManifest run p)
  engine.appendJournal (.taskCompleted job.jobId run.versionId
    (backupResult run p run.journaledAfter))
  return backupResult run p run.endedAfter

/-- One file of a full backup; a file that cannot be opened is skipped. -/
def backupFile (source : Source) (run : Execution) (job : BackupJob)
    (p : Progress) (entry : FileEntry) : EngineM Progress :=
  match source.content entry.path with
  | none => return { p with skippedFiles := p.skippedFiles ++ [entry.path] }
  | some content => do
      let p ← engine.processFile run.versionId job p entry content
      engine.journalProcessed job p
      return p

/-- A full backup up to its commit. -/
def collectFull (source : Source) (run : Execution) (job : BackupJob) :
    EngineM Progress := do
  engine.appendJournal (.taskStarted job.jobId run.executionId run.startedAt)
  (scan source none).foldlM (engine.backupFile source run job) .start

def runBackup (source : Source) (run : Execution) (job : BackupJob) :
    EngineM BackupResult := do
  let p ← engine.collectFull source run job
  engine.completeBackup run job p

/-- One file of a resumable backup.  A file that the journal reports as
processed is passed over; the second component counts these. -/
def resumeFile (processed : List String) (source : Source) (run : Execution)
    (job : BackupJob) (acc : Progress × Nat) (entry : FileEntry) :
    EngineM (Progress × Nat) :=
  let (p, resumed) := acc
  if entry.path ∈ processed then return (p, resumed + 1)
  else
    match source.content entry.path with
    | none =>
        return ({ p with skippedFiles := p.skippedFiles ++ [entry.path] }, resumed)
    | some content => do
        let p ← engine.processFile run.versionId job p entry content
        engine.journalProcessed job p
        -- The subtraction is on 64-bit words.
        engine.appendJournal (.checkpoint job.jobId
          (.ofFloat (F64.ratio (p.fileCount + resumed) (max source.totalFiles 1)))
          (UInt64.ofNat (max source.totalFiles 1) - UInt64.ofNat p.fileCount -
            UInt64.ofNat resumed))
        return (p, resumed)

/-- The files of the source that are not processed yet. -/
def collectUnprocessed (processed : List String) (source : Source)
    (run : Execution) (job : BackupJob) : EngineM Progress := do
  engine.appendJournal (.taskStarted job.jobId run.executionId run.startedAt)
  let (p, _) ← (scan source none).foldlM
    (engine.resumeFile processed source run job) (.start, 0)
  return p

/-- A resumable backup up to its commit. -/
def collectResumable (source : Source) (run : Execution) (job : BackupJob) :
    EngineM Progress := do
  let s ← get
  engine.collectUnprocessed (readProcessedFilesFromJournal s.journal job.jobId)
    source run job

def runBackupResumable (source : Source) (run : Execution) (job : BackupJob) :
    EngineM BackupResult := do
  let p ← engine.collectResumable source run job
  engine.completeBackup run job p

end Operations

section Specs

variable {engine : BackupEngine} {s : AgentState}

/-- Journalling touches only the journal. -/
theorem files_appendJournal (entry : JournalEntry) :
    (stateAfter (engine.appendJournal entry) s).files = s.files := by
  cases s with
  | mk files index journal chunkIdsDrawn appendsLeft =>
      cases journal with
      | none =>
          rfl
      | some journal =>
          rcases appendsLeft with _ | _ | n <;> rfl

/-- A chunk that the index knows is not stored again. -/
theorem run_storeChunk_of_known {hash : ChunkHash} {known : IndexEntry}
    (h : s.index.lookup hash = some known) (data : Bytes) :
    (engine.storeChunk hash data).run s = .ok (known.location, 0) s := by
  refine run_bind_eq_ok.mpr ⟨s, s, rfl, ?_⟩
  simp only [h]
  rfl

/-- Storing a chunk adds no file entry. -/
theorem ensures_processChunk
    (versionId : VersionId) (path : String) (p : Progress)
    (chunk : RawChunkData) :
    Ensures (engine.processChunk versionId path p chunk) s
      (fun p' _ => p'.files = p.files) := by
  refine ensures_bind (P := fun _ _ => True) (fun _ _ _ => trivial) ?_
  intro stored s' _
  exact ensures_pure rfl

/-- A processed file is recorded with all its chunks in order. -/
theorem ensures_processFile
    (versionId : VersionId) (job : BackupJob) (p : Progress)
    (entry : FileEntry) (content : Bytes) :
    Ensures (engine.processFile versionId job p entry content) s
      (fun p' _ => ∃ chunks,
        engine.chunker (job.chunkingProfile.toChunkStrategy entry.size) content =
          .ok chunks ∧
        p'.files = p.files ++ [engine.completedEntry entry chunks]) := by
  refine ensures_bind (P := fun chunks _ => engine.chunker
      (job.chunkingProfile.toChunkStrategy entry.size) content = .ok chunks)
    (ensures_ofResult fun chunks h => h) ?_
  intro chunks s₁ hchunks
  refine ensures_bind (ensures_foldlM chunks
    (fun _ p' _ => p'.files = p.files) rfl ?_) ?_
  · intro done chunk rest p₁ s₂ _ hfiles
    refine ensures_mono (ensures_processChunk versionId entry.path p₁ chunk) ?_
    intro p₂ s₃ hfiles'
    exact hfiles'.trans hfiles
  · intro p' s₂ hfiles
    exact ensures_pure ⟨chunks, hchunks, by rw [hfiles]⟩

/-- The manifest of a completed backup lies at its place. -/
theorem ensures_completeBackup
    (run : Execution) (job : BackupJob) (p : Progress) :
    Ensures (engine.completeBackup run job p) s
      (fun _ s' =>
        s'.files.lookup (LocalRepository.manifestPath engine.root run.versionId) =
          some (engine.json.toVec (engine.fullManifest run p))) := by
  have hcommit : Ensures (engine.commitVersion (engine.fullManifest run p)) s
      (fun _ s' =>
        s'.files.lookup (LocalRepository.manifestPath engine.root run.versionId) =
          some (engine.json.toVec (engine.fullManifest run p))) := by
    intro u s' hrun
    cases hrun
    exact LocalRepository.lookup_writeManifest_self
  refine ensures_bind hcommit ?_
  intro _ s₁ hfile
  have happend : Ensures
      (engine.appendJournal (.taskCompleted job.jobId run.versionId
        (backupResult run p run.journaledAfter))) s₁
      (fun _ s' => s'.files = s₁.files) := by
    intro u s' hrun
    rw [← (run_eq_ok_iff.mp hrun).2]
    exact files_appendJournal _
  refine ensures_bind happend ?_
  intro _ s₂ hfiles
  exact ensures_pure (by rw [hfiles, hfile])

end Specs

section Example

/-- A random UUID with the given low digits. -/
def exampleUuid (n : Nat) : Uuid :=
  BitVec.ofNat 128 (0x40008000000000000000 + n)

/-- An engine with the fixed-size chunker and the default limits. -/
def exampleEngine (platform : Platform) : BackupEngine :=
  { platform with
    chunker := FixedChunker.chunk
    memoryLimit := 4 * 1024 * 1024 * 1024
    rotationSize := 16 * 1024 * 1024
    recordLength := fun _ => 256
    newChunkId := fun n => ⟨exampleUuid n⟩ }

def exampleJob : BackupJob where
  jobId := ⟨exampleUuid 1⟩
  chunkingProfile := .small

/-- The first of January 2024. -/
def exampleTime : DateTime :=
  1704067200000000000

def exampleExecution (n : Nat) : Execution where
  versionId := ⟨exampleUuid n⟩
  executionId := ⟨exampleUuid 2⟩
  startedAt := 1704067200
  committedAt := exampleTime
  journaledAfter := { secs := 1, nanos := 0 }
  endedAfter := { secs := 1, nanos := 0 }

/-- A file as the scanner finds it. -/
def exampleFile (path : String) (size : Nat) : FileEntry where
  path := path
  size := size
  modifiedAt := exampleTime
  attributes := {}
  chunks := []
  fileHash := zeroDigest

/-- The three bytes `abc`. -/
def abc : Bytes :=
  [0x61, 0x62, 0x63]

/-- The BLAKE3 hash of `abc`. -/
def abcHash : ChunkHash :=
  ⟨⟨[
    0x64, 0x37, 0xb3, 0xac, 0x38, 0x46, 0x51, 0x33,
    0xff, 0xb6, 0x3b, 0x75, 0x27, 0x3a, 0x8d, 0xb5,
    0x48, 0xc5, 0x58, 0x46, 0x5d, 0x79, 0xdb, 0x03,
    0xfd, 0x35, 0x9c, 0x6c, 0xd5, 0xbd, 0x9d, 0x85], rfl⟩⟩

/-- The Zstandard frame of `abc`. -/
def abcFrame : Bytes :=
  [0x28, 0xb5, 0x2f, 0xfd, 0x00, 0x58, 0x19, 0x00, 0x00, 0x61, 0x62, 0x63]

/-- That frame under AES-256-GCM with the key of 32 zero bytes and the first
chunk identifier. -/
def abcEncrypted : EncryptedChunk where
  ciphertext :=
    [0x19, 0x93, 0x85, 0xd8, 0x19, 0xb2, 0xcb, 0x25, 0x73, 0x30, 0x08, 0xc6]
  nonce := ⟨[
    0x00, 0x00, 0x00, 0x00, 0x00, 0x00, 0x40, 0x00,
    0x80, 0x00, 0x00, 0x00], rfl⟩
  authTag := ⟨[
    0x79, 0xcc, 0x34, 0x32, 0x7f, 0x6b, 0x13, 0x8b,
    0x9e, 0x6a, 0xdf, 0x9a, 0x2c, 0xbd, 0x74, 0x24], rfl⟩

/-- The three bytes `abd`. -/
def abd : Bytes :=
  [0x61, 0x62, 0x64]

/-- The BLAKE3 hash of `abd`. -/
def abdHash : ChunkHash :=
  ⟨⟨[
    0x90, 0xbf, 0xae, 0x30, 0x1e, 0xb5, 0x2a, 0x72,
    0x98, 0xef, 0x6a, 0x14, 0x08, 0xb2, 0x9b, 0x37,
    0xce, 0x9d, 0x9a, 0x83, 0xf0, 0x0f, 0xba, 0x3d,
    0xda, 0xa2, 0x1e, 0x05, 0x50, 0xed, 0xf8, 0xfa], rfl⟩⟩

/-- The Zstandard frame of `abd`. -/
def abdFrame : Bytes :=
  [0x28, 0xb5, 0x2f, 0xfd, 0x00, 0x58, 0x19, 0x00, 0x00, 0x61, 0x62, 0x64]

/-- Data that is only wrapped. -/
def wrapChunk (plain : Bytes) : EncryptedChunk where
  ciphertext := plain
  nonce := .replicate 12 0
  authTag := .replicate 16 0

theorem wrapChunk_ne_abcEncrypted (plain : Bytes) :
    wrapChunk plain ≠ abcEncrypted := by
  intro h
  have hnonce : (.replicate 12 0 : List.Vector UInt8 12) = abcEncrypted.nonce :=
    congrArg EncryptedChunk.nonce h
  exact absurd hnonce (by decide)

/-- JSON that reads the given manifest back. -/
def exampleJson (m : Manifest) : ManifestJson where
  toVec := Json.manifestBytes
  fromSlice := fun data =>
    if data = Json.manifestBytes m then .ok m
    else .error "expected value at line 1 column 1"

/-- JSON that reads the given manifests back. -/
def exampleJsonOf (versions : List Manifest) : ManifestJson where
  toVec := Json.manifestBytes
  fromSlice := fun data =>
    match versions.find? fun m => data = Json.manifestBytes m with
    | some m => .ok m
    | none => .error "expected value at line 1 column 1"

/-- The texts of two versions with different identifiers are told apart. -/
theorem fromSlice_exampleJsonOf {old new : Manifest} (h : old.versionId ≠ new.versionId) :
    (exampleJsonOf [old, new]).fromSlice (Json.manifestBytes old) = .ok old ∧
      (exampleJsonOf [old, new]).fromSlice (Json.manifestBytes new) = .ok new := by
  have htexts : Json.manifestBytes new ≠ Json.manifestBytes old :=
    fun heq => h (Json.versionId_eq_of_manifestBytes_eq heq).symm
  simp [exampleJsonOf, htexts]

/-- Hashing, compression and encryption as they are on `abc`; other data is
only wrapped. -/
def examplePlatform (m : Manifest) : Platform where
  root := "/repo"
  json := exampleJson m
  blake3 := fun data => if data = abc then abcHash else .ofEmpty
  sha256 := Sha256.hash
  compress := fun data => .ok (if data = abc then abcFrame else 0 :: data)
  decompress := fun data => .ok (if data = abcFrame then abc else data.tail)
  encryptChunk := fun plain chunkId =>
    .ok (if plain = abcFrame ∧ chunkId = ⟨exampleUuid 0⟩ then abcEncrypted
      else wrapChunk plain)
  decryptChunk := fun encrypted =>
    .ok (if encrypted = abcEncrypted then abcFrame else encrypted.ciphertext)

theorem fromSlice_toVec_examplePlatform (m : Manifest) :
    (examplePlatform m).json.fromSlice ((examplePlatform m).json.toVec m) =
      .ok m := by
  simp [examplePlatform, exampleJson]

end Example

end BackupEngine

end Agent
end HyperBackup
