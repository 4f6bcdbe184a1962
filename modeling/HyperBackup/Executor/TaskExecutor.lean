import HyperBackup.Agent.Chunker
import HyperBackup.Lib.Path
import HyperBackup.Provider.Faults

/-!
# The task executor of the agent

The agent gets tasks from the control server, backs up or restores through the
provider, and reports how a task ended.  What goes wrong with the network, with
the manifest or with a file that is written is logged only; what goes wrong
with the source makes the task fail.

A task runs on a machine: its environment variables, the tree that is walked,
and the disk that is written to.  Identifiers and times are drawn beforehand.
The address of the server and the texts that are logged are left out.
-/

namespace HyperBackup
namespace Executor

open Lib Lib.Program Badou Provider

structure TaskSpec where
  taskId : String
  jobId : String
  repoId : String
  taskType : String
  sourcePath : String
  targetPath : String
deriving DecidableEq

/-- What a walk finds at a path.  The length is that of the metadata, if these
can be read. -/
structure DirEntry where
  path : String
  isFile : Bool
  len : Option Nat
  data : Except String Bytes
  processedAt : DateTime

/-- An attempt to write a file, with what went wrong. -/
structure FileWrite where
  path : String
  data : Bytes
  error : Option String
deriving DecidableEq

/-- The machine the agent runs on: the token it is given and what the server
finds in a token, what a walk from a path yields if the path exists, and what
goes wrong when directories are created and files are written. -/
structure Machine where
  jwt : Option String
  token : String → Token
  walk : String → Option (List (Except String DirEntry))
  createDirAll : String → Except String Unit
  writeError : Nat → Option String

structure TaskDraws where
  startedAt : DateTime
  completedAt : DateTime
  traceId : Uuid
  versionId : VersionId
  repo : CreateDraws
  timestamp : DateTime
  manifest : Provider.ManifestDraws

/-- What a task finds in place when it runs. -/
structure Setting where
  ext : Externals
  layout : BadouDataLayout
  codec : Codec
  machine : Machine
  draws : TaskDraws

/-- The network and the files written so far. -/
structure World where
  net : Net
  writes : List FileWrite

def World.setNet (net : Net) (w : World) : World :=
  { w with net := net }

def World.withWrite (write : FileWrite) (w : World) : World :=
  { w with writes := w.writes ++ [write] }

abbrev TaskM (α : Type) : Type :=
  EStateM String World α

/-- What a task that did not fail has counted. -/
structure TaskCounts where
  bytesProcessed : Nat
  bytesStored : Nat
  fileCount : Nat
  chunkCount : Nat
  versionId : String
deriving DecidableEq

structure TaskResultRequest where
  taskId : String
  agentId : String
  jobId : String
  status : String
  startedAt : DateTime
  completedAt : Option DateTime
  bytesProcessed : Nat
  bytesStored : Nat
  fileCount : Nat
  chunkCount : Nat
  dedupRatio : Agent.F64
  versionId : Option String
  errorMessage : Option String
  traceId : String
deriving DecidableEq

/-- What a backup has gathered from the files so far. -/
structure Gathered where
  fileCount : Nat
  bytesProcessed : Nat
  chunkCount : Nat
  chunkRefs : List Agent.ChunkReference
  fileEntries : List Agent.FileEntry

/-- What a backup has gathered from the chunks so far, with the hashes of the
chunks of the file at hand. -/
structure GatheredChunks where
  chunkCount : Nat
  chunkRefs : List Agent.ChunkReference
  hashes : List ChunkHash

structure Restored where
  files : Nat
  bytes : Nat

namespace TaskExecutor

def chunkSize : Nat :=
  256 * 1024

/-- The chunks of a file with the offsets at which they begin. -/
def chunks (data : Bytes) : List Agent.RawChunkData :=
  Agent.FixedChunker.pieces chunkSize data.length 0 data

/-- A chunk as it is uploaded: nothing is encrypted. -/
def plainChunk (data : Bytes) : Agent.EncryptedChunk where
  ciphertext := data
  nonce := List.Vector.replicate 12 0
  authTag := List.Vector.replicate 16 0

/-- The hash in the name of a chunk file, if there is one. -/
def storedHash (location : Agent.ChunkLocation) (raw : ChunkHash) : ChunkHash :=
  match Hex.decode (trimEndMatches location.path ".chunk") with
  | .error _ => raw
  | .ok bytes => if h : bytes.length = 32 then ⟨⟨bytes, h⟩⟩ else raw

section Tasks

variable (setting : Setting)

/-- The token, empty if there is none. -/
def jwtToken : String :=
  setting.machine.jwt.getD ""

def providerFor (repoId : String) : BaDouProvider where
  repoId := repoId
  token := setting.machine.token (jwtToken setting)

/-- An operation of a provider; its error is delivered. -/
def onNet {α : Type} (x : ProviderM Net α) :
    TaskM (Except Agent.RepoError α) :=
  attempt (zoom World.net World.setNet id x : EStateM Agent.RepoError World α)

def writeFile (path : String) (data : Bytes) : TaskM (Option String) := do
  let w ← get
  let error := setting.machine.writeError w.writes.length
  set (w.withWrite { path := path, data := data, error := error })
  return error

/-- A backup asks for a new repository, and takes the one of the task if it
gets none. -/
def connect (spec : TaskSpec) : TaskM (Option BaDouProvider) := do
  if jwtToken setting = "" then
    return none
  else
    let created ← onNet (BaDouProvider.createRepo faulty
      (providerFor setting spec.repoId) setting.draws.repo)
    match created with
    | .ok repoId => return some (providerFor setting repoId)
    | .error _ => return some (providerFor setting spec.repoId)

/-- Upload a chunk.  If that is not confirmed, the file keeps the hash of the
plaintext. -/
def backupChunk (provider : Option BaDouProvider) (path : String)
    (gathered : GatheredChunks) (chunk : Agent.RawChunkData) :
    TaskM GatheredChunks := do
  let raw := setting.ext.blake3 chunk.data
  match provider with
  | none => return { gathered with hashes := gathered.hashes ++ [raw] }
  | some provider =>
      let written ← onNet (provider.writeChunk faulty setting.ext
        setting.layout setting.codec raw (plainChunk chunk.data))
      match written with
      | .ok location =>
          let hash := storedHash location raw
          let ref : Agent.ChunkReference := {
            hash := hash
            versionId := setting.draws.versionId
            filePath := path
            offset := chunk.offset }
          return {
            chunkCount := gathered.chunkCount + 1
            chunkRefs := gathered.chunkRefs ++ [ref]
            hashes := gathered.hashes ++ [hash] }
      | .error _ => return { gathered with hashes := gathered.hashes ++ [raw] }

def backupEntry (provider : Option BaDouProvider) (gathered : Gathered)
    (entry : Except String DirEntry) : TaskM Gathered := do
  let entry ← ofResult (fun _ => "walk dir") entry
  if entry.isFile then
    let size := entry.len.getD 0
    let data ← ofResult (fun _ => "read file") entry.data
    let file ← (chunks data).foldlM (backupChunk setting provider entry.path)
      { chunkCount := gathered.chunkCount
        chunkRefs := gathered.chunkRefs
        hashes := [] }
    let fileEntry : Agent.FileEntry := {
      path := entry.path
      size := size
      modifiedAt := entry.processedAt
      attributes := {}
      chunks := file.hashes
      fileHash := (setting.ext.blake3 data).digest }
    return {
      fileCount := gathered.fileCount + 1
      bytesProcessed := gathered.bytesProcessed + size
      chunkCount := file.chunkCount
      chunkRefs := file.chunkRefs
      fileEntries := gathered.fileEntries ++ [fileEntry] }
  else
    return gathered

def manifest (gathered : Gathered) : Agent.Manifest where
  versionId := setting.draws.versionId
  timestamp := setting.draws.timestamp
  parentVersionId := none
  versionNumber := 1
  backupType := .full
  files := gathered.fileEntries
  chunkRefs := gathered.chunkRefs
  hashes :=
    { manifestHash := Agent.zeroDigest, fileIndexHash := Agent.zeroDigest
      chunkIndexHash := Agent.zeroDigest, repoHash := Agent.zeroDigest }
  chunkLocations := ∅

/-- Upload the manifest; an error is logged only. -/
def commit (provider : Option BaDouProvider) (gathered : Gathered) :
    TaskM Unit := do
  match provider with
  | none => return ()
  | some provider =>
      let _ ← onNet (provider.writeManifest faulty setting.ext setting.layout
        setting.codec setting.draws.manifest setting.draws.versionId
        (manifest setting gathered))
      return ()

def executeBackup (spec : TaskSpec) : TaskM TaskCounts := do
  match setting.machine.walk spec.sourcePath with
  | none => throw ("source path does not exist: " ++ spec.sourcePath)
  | some entries =>
      let provider ← connect setting spec
      let gathered ← entries.foldlM (backupEntry setting provider)
        { fileCount := 0
          bytesProcessed := 0
          chunkCount := 0
          chunkRefs := []
          fileEntries := [] }
      commit setting provider gathered
      return {
        bytesProcessed := gathered.bytesProcessed
        bytesStored := gathered.bytesProcessed
        fileCount := gathered.fileCount
        chunkCount := gathered.chunkCount
        versionId := uuidText setting.draws.versionId.uuid }

/-- Fetch a chunk.  One that cannot be fetched is left out. -/
def restoreChunk (provider : BaDouProvider) (data : Bytes) (hash : ChunkHash) :
    TaskM Bytes := do
  let fetched ← onNet (provider.readChunk faulty setting.ext setting.codec
    (BaDouProvider.makeLocation hash.toHex))
  match fetched with
  | .ok encrypted => return data ++ encrypted.ciphertext
  | .error _ => return data

/-- The path a file of the manifest is written to. -/
def targetOf (targetPath : String) (f : Agent.FileEntry) : String :=
  Path.join targetPath ((Path.fileName f.path).getD "restored_file")

/-- Write a file with the chunks that can be fetched.  If its directory cannot
be created, the write fails. -/
def restoreFile (provider : BaDouProvider) (targetPath : String)
    (restored : Restored) (f : Agent.FileEntry) : TaskM Restored := do
  let data ← f.chunks.foldlM (restoreChunk setting provider) []
  let error ← writeFile setting (targetOf targetPath f) data
  match error with
  | none =>
      return { files := restored.files + 1, bytes := restored.bytes + data.length }
  | some _ => return restored

/-- Restore what the manifest of the version lists; without a manifest or a
token nothing is restored. -/
def download (spec : TaskSpec) (versionId : VersionId) : TaskM Restored := do
  if jwtToken setting = "" then
    return { files := 0, bytes := 0 }
  else
    let provider := providerFor setting spec.repoId
    let fetched ← onNet (provider.readManifest faulty setting.ext setting.codec
      versionId)
    match fetched with
    | .ok manifest =>
        manifest.files.foldlM (restoreFile setting provider spec.targetPath)
          { files := 0, bytes := 0 }
    | .error _ => return { files := 0, bytes := 0 }

def executeRestore (spec : TaskSpec) : TaskM TaskCounts := do
  let _ ← ofResult (fun _ => "create target dir")
    (setting.machine.createDirAll spec.targetPath)
  if spec.sourcePath = "" then
    throw "restore: source_path (version_id) is empty"
  else
    let uuid ← ofResult (fun _ => "parse version_id")
      (setting.ext.parseUuid spec.sourcePath)
    let restored ← download setting spec ⟨uuid⟩
    return {
      bytesProcessed := restored.bytes
      bytesStored := restored.bytes
      fileCount := restored.files
      chunkCount := restored.files
      versionId := spec.sourcePath }

/-- Nothing is verified. -/
def executeVerify : TaskM TaskCounts :=
  return {
    bytesProcessed := 0
    bytesStored := 0
    fileCount := 0
    chunkCount := 0
    versionId := uuidText setting.draws.versionId.uuid }

def executeTask (spec : TaskSpec) : TaskM TaskCounts :=
  if spec.taskType = "backup" then executeBackup setting spec
  else if spec.taskType = "restore" then executeRestore setting spec
  else if spec.taskType = "verify" then executeVerify setting
  else throw ("unknown task type: " ++ spec.taskType)

/-- The report of a task that ended so. -/
def taskResult (agentId : String) (spec : TaskSpec) :
    Except String TaskCounts → TaskResultRequest
  | .ok counts => {
      taskId := spec.taskId
      agentId := agentId
      jobId := spec.jobId
      status := "completed"
      startedAt := setting.draws.startedAt
      completedAt := some setting.draws.completedAt
      bytesProcessed := counts.bytesProcessed
      bytesStored := counts.bytesStored
      fileCount := counts.fileCount
      chunkCount := counts.chunkCount
      dedupRatio :=
        Agent.computeDedupRatio counts.bytesProcessed counts.bytesStored
      versionId := some counts.versionId
      errorMessage := none
      traceId := uuidText setting.draws.traceId }
  | .error message => {
      taskId := spec.taskId
      agentId := agentId
      jobId := spec.jobId
      status := "failed"
      startedAt := setting.draws.startedAt
      completedAt := some setting.draws.completedAt
      bytesProcessed := 0
      bytesStored := 0
      fileCount := 0
      chunkCount := 0
      dedupRatio := ⟨0⟩
      versionId := none
      errorMessage := some message
      traceId := uuidText setting.draws.traceId }

/-- Execute a task; its report is delivered. -/
def report (agentId : String) (spec : TaskSpec) : TaskM TaskResultRequest := do
  let result ← (attempt (executeTask setting spec) :
    TaskM (Except String TaskCounts))
  return taskResult setting agentId spec result

end Tasks

section Calls

variable {setting : Setting} {w : World}

@[simp] theorem setNet_setNet (net net' : Net) :
    (w.setNet net).setNet net' = w.setNet net' :=
  rfl

@[simp] theorem net_setNet (net : Net) : (w.setNet net).net = net :=
  rfl

@[simp] theorem writes_setNet (net : Net) : (w.setNet net).writes = w.writes :=
  rfl

theorem run_onNet {α : Type} (x : ProviderM Net α) (w : World) :
    (onNet x).run w = .ok (outcome x w.net) (w.setNet (stateAfter x w.net)) := by
  have herror : (outcome x w.net).mapError id = outcome x w.net := by
    cases outcome x w.net with
    | ok a =>
        rfl
    | error e =>
        rfl
  unfold onNet
  rw [run_attempt, outcome_zoom, stateAfter_zoom, herror]

/-- The name the provider gives to a chunk leads to the hash of the upload. -/
theorem storedHash_makeLocation (h raw : ChunkHash) :
    storedHash (BaDouProvider.makeLocation h.toHex) raw = h := by
  have hname : trimEndMatches (BaDouProvider.makeLocation h.toHex).path ".chunk" =
      h.toHex :=
    trimEndMatches_chunk h
  have hdecode : Hex.decode h.toHex = .ok h.digest.toList := Hex.decode_encode _
  have hlength : h.digest.toList.length = 32 := h.digest.toList_length
  unfold storedHash
  rw [hname, hdecode]
  simp only [hlength]
  rfl

end Calls

end TaskExecutor
end Executor
end HyperBackup
