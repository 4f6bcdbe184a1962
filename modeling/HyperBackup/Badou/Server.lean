import HyperBackup.Badou.Commit
import HyperBackup.Badou.Gc

/-!
# Requests of the HBOP server

The handlers for uploading and fetching chunks and for committing snapshots.
A handler is a program over the server state that answers with a response or
with a status.  Checking credentials needs the clock and a secret; its outcome
is part of the request here.  Parsing UUIDs, JSON and BLAKE3 come from other
crates and are parameters.
-/

namespace HyperBackup
namespace Badou

open Lib Lib.Program

inductive HbopErrorCode
  | authFailed
  | permissionDenied
  | versionMismatch
  | repoNotFound
  | repoAlreadyExists
  | versionNotFound
  | snapshotNotFound
  | chunkNotFound
  | manifestNotFound
  | immutableConflict
  | stateConflict
  | hashMismatch
  | corruptedData
  | diskFull
  | internalError
  | rateLimited
  | unspecified
deriving DecidableEq

inductive StatusCode
  | unauthenticated
  | permissionDenied
  | invalidArgument
  | notFound
  | alreadyExists
  | failedPrecondition
  | dataLoss
  | resourceExhausted
  | internal
deriving DecidableEq

structure Status where
  code : StatusCode
  message : String
deriving DecidableEq

def toStatus (code : HbopErrorCode) (message : String) : Status :=
  match code with
  | .authFailed => ⟨.unauthenticated, "AUTH_FAILED: " ++ message⟩
  | .permissionDenied => ⟨.permissionDenied, "FORBIDDEN: " ++ message⟩
  | .versionMismatch => ⟨.invalidArgument, "VERSION_MISMATCH: " ++ message⟩
  | .repoNotFound => ⟨.notFound, "REPO_NOT_FOUND: " ++ message⟩
  | .repoAlreadyExists => ⟨.alreadyExists, "REPO_EXISTS: " ++ message⟩
  | .versionNotFound => ⟨.notFound, "VERSION_NOT_FOUND: " ++ message⟩
  | .snapshotNotFound => ⟨.notFound, "SNAPSHOT_NOT_FOUND: " ++ message⟩
  | .chunkNotFound => ⟨.notFound, "CHUNK_NOT_FOUND: " ++ message⟩
  | .manifestNotFound => ⟨.notFound, "MANIFEST_NOT_FOUND: " ++ message⟩
  | .immutableConflict =>
      ⟨.failedPrecondition, "IMMUTABLE_CONFLICT: " ++ message⟩
  | .stateConflict => ⟨.failedPrecondition, "STATE_CONFLICT: " ++ message⟩
  | .hashMismatch => ⟨.failedPrecondition, "HASH_MISMATCH: " ++ message⟩
  | .corruptedData => ⟨.dataLoss, "SNAPSHOT_CORRUPTED: " ++ message⟩
  | .diskFull => ⟨.resourceExhausted, "REPO_FULL: " ++ message⟩
  | .internalError => ⟨.internal, "INTERNAL_ERROR: " ++ message⟩
  | .rateLimited => ⟨.resourceExhausted, "RATE_LIMITED: " ++ message⟩
  | .unspecified => ⟨.internal, "INTERNAL_ERROR: " ++ message⟩

def chunkErrorToStatus (e : ChunkOpsError) : Status :=
  match e with
  | .notFound _ => toStatus .chunkNotFound e.message
  | .referenced _ => toStatus .immutableConflict e.message
  | .store _ => toStatus .internalError e.message

def commitErrorToStatus (e : CommitError) : Status :=
  match e with
  | .chunkStore (.notFound _) => toStatus .chunkNotFound e.message
  | _ => toStatus .internalError e.message

def versionErrorToStatus (e : VersionOpsError) : Status :=
  match e with
  | .notFound _ => toStatus .versionNotFound e.message
  | .invalidTransition a b =>
      toStatus .stateConflict (a.debug ++ " -> " ++ b.debug)
  | .parentNotFound _ => toStatus .versionNotFound e.message

/-- The status for a snapshot that cannot be read back. -/
def snapshotErrorToStatus (e : SnapshotStoreError) : Status :=
  toStatus .internalError ("snapshot store error: " ++ e.message)

/-- The status for a repository that does not exist. -/
def repoNotFoundStatus (repoId : RepositoryId) : Status :=
  toStatus .repoNotFound
    ("repository not found: RepositoryId(" ++ uuidText repoId.uuid ++ ")")

/-- What the server takes from other crates. -/
structure Externals where
  blake3 : Bytes → ChunkHash
  parseUuid : String → Except String Uuid
  json : Json

/-- The repositories under the data root and the version table. -/
structure ServerState where
  repos : HashMap RepositoryId OpenRepo
  versionOps : VersionOps

/-- A request with the outcome of checking its credentials. -/
structure Request (α : Type) where
  auth : Except Status Unit
  inner : α

structure ChunkData where
  chunkHash : String
  data : Bytes
  size : UInt64
deriving DecidableEq

structure ChunkPutRequest where
  repoId : String
  chunk : Option ChunkData
deriving DecidableEq

structure ChunkGetRequest where
  repoId : String
  chunkHash : String
deriving DecidableEq

structure ChunkExistsRequest where
  repoId : String
  chunkHash : String
deriving DecidableEq

structure ChunkDeleteRequest where
  repoId : String
  chunkHash : String
deriving DecidableEq

structure ChunkInfo where
  chunkHash : String
  size : UInt64
  storedSize : UInt64
  refCount : UInt32
deriving DecidableEq

structure ChunkExistsResponse where
  exists_ : Bool
  info : Option ChunkInfo
deriving DecidableEq

structure ChunkBatchPutResponse where
  infos : List ChunkInfo
  successCount : UInt32
  failureCount : UInt32
deriving DecidableEq

structure PbChunkRef where
  chunkHash : String
  offset : UInt64
  size : UInt64
deriving DecidableEq

/-- A manifest as a client sends it. -/
structure ManifestData where
  manifestId : String
  fileTree : Bytes
  chunkRefs : List PbChunkRef
deriving DecidableEq

structure SnapshotMeta where
  snapshotId : String
  versionId : String
  repoId : String
  status : Int32
  sourceMachine : String
  backupPolicy : Bytes
  fileTreeRoot : String
  encryptionInfo : Bytes
  compressionInfo : Bytes
  totalSize : UInt64
  storedSize : UInt64
  fileCount : UInt32
  chunkCount : UInt32
  createdAt : Option DateTime
deriving DecidableEq

structure VersionInfo where
  versionId : String
  repoId : String
  snapshotId : String
  parentVersionId : String
  sequence : UInt64
  status : Int32
  createdAt : Option DateTime
  sealedAt : Option DateTime
  immutableUntil : Option DateTime
deriving DecidableEq

structure SnapshotCommitRequest where
  repoId : String
  parentVersionId : String
  snapshotMeta : Option SnapshotMeta
  manifest : Option ManifestData
  chunkHashes : List String
deriving DecidableEq

structure SnapshotCommitResponse where
  version : Option VersionInfo
  snapshot : Option SnapshotMeta
deriving DecidableEq

/-- The identifiers and times one commit request draws: those that stand in
for identifiers it cannot parse, and those of the commit itself. -/
structure RequestDraws where
  manifestId : Uuid
  manifestSnapshotId : Uuid
  versionId : VersionId
  snapshotId : Uuid
  now : DateTime
  commit : CommitDraws
deriving DecidableEq

section Convert

variable (ext : Externals)

/-- The hash written in a text of exactly 64 digits. -/
def Convert.parseHash (hexStr : String) : Except String ChunkHash :=
  match Hex.decode hexStr with
  | .error e => .error ("invalid hex: " ++ e.message)
  | .ok bytes =>
      if h : bytes.length = 32 then .ok ⟨⟨bytes, h⟩⟩
      else .error ("expected 32 bytes, got " ++ toString bytes.length)

def Convert.parseRepoId (s : String) : Except String RepositoryId :=
  match ext.parseUuid s with
  | .error e => .error ("invalid repo_id: " ++ e)
  | .ok uuid => .ok ⟨uuid⟩

def Convert.parseVersionId (s : String) : Except String VersionId :=
  match ext.parseUuid s with
  | .error e => .error ("invalid version_id: " ++ e)
  | .ok uuid => .ok ⟨uuid⟩

def Convert.pbToChunkData (pb : ChunkData) :
    Except String (ChunkHash × Bytes) := do
  let hash ← parseHash pb.chunkHash
  return (hash, pb.data)

def Convert.makeChunkInfo (chunk : ChunkData) (refCount : UInt32) : ChunkInfo where
  chunkHash := chunk.chunkHash
  size := chunk.size
  storedSize := chunk.size
  refCount := refCount

def Convert.parseUuid (s : String) : Except String Uuid :=
  (ext.parseUuid s).mapError fun e => "invalid uuid: " ++ e

/-- The hash of a text; one that is not a hash counts as all zeros. -/
def Convert.parseHashOrZero (hexStr : String) : ChunkHash :=
  match parseHash hexStr with
  | .ok hash => hash
  | .error _ => .zero

def Convert.versionStatusToPb : VersionStatus → Int32
  | .created => 1
  | .writing => 2
  | .verifying => 3
  | .committing => 4
  | .sealed => 5
  | .expired => 6
  | .deleted => 7
  | .gcPending => 8
  | .purged => 9

def Convert.snapshotStatusToPb : SnapshotStatus → Int32
  | .created => 1
  | .writing => 2
  | .sealed => 3
  | .corrupt => 4
  | .deleted => 5

def Convert.versionToPbInfo (v : Version) : VersionInfo where
  versionId := uuidText v.versionId.uuid
  repoId := uuidText v.repoId.uuid
  snapshotId := uuidText v.snapshotId
  parentVersionId := (v.parentVersionId.map fun p => uuidText p.uuid).getD ""
  sequence := v.sequence
  status := versionStatusToPb v.status
  createdAt := some v.createdAt
  sealedAt := v.sealedAt
  immutableUntil := v.immutableUntil

def Convert.snapshotToPbMeta (s : Snapshot) (repoId : String) : SnapshotMeta where
  snapshotId := uuidText s.snapshotId
  versionId := uuidText s.versionId.uuid
  repoId := repoId
  status := snapshotStatusToPb s.status
  sourceMachine := s.sourceMachine.hostname
  backupPolicy := ext.json.policyToVec s.backupPolicy
  fileTreeRoot := s.fileTree.root
  encryptionInfo := ext.json.encryptionToVec s.encryptionInfo
  compressionInfo := ext.json.compressionToVec s.compressionInfo
  totalSize := s.totalSize
  storedSize := s.storedSize
  fileCount := s.fileCount
  chunkCount := s.chunkCount
  createdAt := some s.createdAt

end Convert

namespace Server

abbrev ServerM (α : Type) : Type :=
  EStateM Status ServerState α

/-- The state of a repository; an unknown one counts as empty. -/
def repoState (s : ServerState) (repoId : RepositoryId) : OpenRepo :=
  (s.repos.lookup repoId).getD .empty

def setRepo (repoId : RepositoryId) (repo : OpenRepo) (s : ServerState) :
    ServerState :=
  { s with repos := s.repos.insert repoId repo }

/-- A server right after the given repositories were created. -/
def new (repoIds : List RepositoryId) : ServerState :=
  { repos := repoIds.foldl (fun repos repoId => repos.insert repoId .empty) ∅
    versionOps := .new }

def openRepo (repoId : RepositoryId) : ServerM OpenRepo := do
  match (← get).repos.lookup repoId with
  | none => throw (repoNotFoundStatus repoId)
  | some repo => return repo

/-- Run a chunk operation on the store of a repository. -/
def onStore {α : Type} (repoId : RepositoryId)
    (x : EStateM ChunkOpsError Store α) : ServerM α :=
  zoom (fun s => (repoState s repoId).store)
    (fun st s => setRepo repoId { repoState s repoId with store := st } s)
    chunkErrorToStatus x

section ChunkRpc

variable (ext : Externals) (layout : BadouDataLayout)

/-- The repository, the hash and the data of an upload. -/
def parsePut (req : ChunkPutRequest) :
    Except Status (RepositoryId × ChunkData × ChunkHash × Bytes) := do
  let repoId ← (Convert.parseRepoId ext req.repoId).mapError
    (toStatus .repoNotFound)
  match req.chunk with
  | none => throw (toStatus .chunkNotFound "missing chunk data")
  | some chunk =>
      let (hash, data) ← (Convert.pbToChunkData chunk).mapError
        (toStatus .hashMismatch)
      return (repoId, chunk, hash, data)

def chunkPut (request : Request ChunkPutRequest) : ServerM ChunkInfo := do
  let _ ← ofResult id request.auth
  let (repoId, chunk, hash, data) ← ofResult id (parsePut ext request.inner)
  if ext.blake3 data ≠ hash then
    throw (toStatus .hashMismatch "chunk hash does not match data")
  let _ ← openRepo repoId
  let _ ← onStore repoId (ChunkOps.putChunk layout repoId hash data)
  let s ← get
  return Convert.makeChunkInfo chunk
    (ChunkStore.refCount (repoState s repoId).store hash)

def chunkGet (request : Request ChunkGetRequest) : ServerM ChunkData := do
  let _ ← ofResult id request.auth
  let repoId ← ofResult (toStatus .repoNotFound)
    (Convert.parseRepoId ext request.inner.repoId)
  let hash ← ofResult (toStatus .hashMismatch)
    (Convert.parseHash request.inner.chunkHash)
  let repo ← openRepo repoId
  let data ← ofResult chunkErrorToStatus
    (ChunkOps.getChunk ext.blake3 repo.store hash)
  return {
    chunkHash := request.inner.chunkHash
    data := data
    size := UInt64.ofNat data.length }

/-- A chunk exists as long as it is referenced. -/
def chunkExists (request : Request ChunkExistsRequest) :
    ServerM ChunkExistsResponse := do
  let _ ← ofResult id request.auth
  let repoId ← ofResult (toStatus .repoNotFound)
    (Convert.parseRepoId ext request.inner.repoId)
  let hash ← ofResult (toStatus .hashMismatch)
    (Convert.parseHash request.inner.chunkHash)
  let repo ← openRepo repoId
  let (found, refCount) := ChunkOps.chunkExists repo.store hash
  return {
    exists_ := found
    info :=
      if found then
        some {
          chunkHash := request.inner.chunkHash
          size := 0
          storedSize := 0
          refCount := refCount }
      else none }

def chunkDelete (request : Request ChunkDeleteRequest) : ServerM Bool := do
  let _ ← ofResult id request.auth
  let repoId ← ofResult (toStatus .repoNotFound)
    (Convert.parseRepoId ext request.inner.repoId)
  let hash ← ofResult (toStatus .hashMismatch)
    (Convert.parseHash request.inner.chunkHash)
  let _ ← openRepo repoId
  let _ ← onStore repoId (ChunkOps.deleteChunk hash)
  return true

/-- One message of a batch: a wrong hash or a failed write is counted, any
other error ends the batch. -/
def batchPutOne
    (response : ChunkBatchPutResponse) (message : Except Status ChunkPutRequest) :
    ServerM ChunkBatchPutResponse := do
  let req ← ofResult id message
  let (repoId, chunk, hash, data) ← ofResult id (parsePut ext req)
  if ext.blake3 data ≠ hash then
    return { response with failureCount := response.failureCount + 1 }
  else
    let _ ← openRepo repoId
    let result ← attempt
      (onStore repoId (ChunkOps.putChunk layout repoId hash data))
    match (result : Except Status ChunkLocation) with
    | .error _ =>
        return { response with failureCount := response.failureCount + 1 }
    | .ok _ =>
        let s ← get
        let info := Convert.makeChunkInfo chunk
          (ChunkStore.refCount (repoState s repoId).store hash)
        return { response with
          infos := response.infos ++ [info]
          successCount := response.successCount + 1 }

def chunkBatchPut (request : Request (List (Except Status ChunkPutRequest))) :
    ServerM ChunkBatchPutResponse := do
  let _ ← ofResult id request.auth
  request.inner.foldlM (batchPutOne ext layout)
    { infos := [], successCount := 0, failureCount := 0 }

end ChunkRpc

section SnapshotRpc

variable (ext : Externals) (layout : BadouDataLayout)

/-- The chunks a commit is to write: what is stored under each listed hash,
or no bytes at all if that cannot be read. -/
def loadChunks (st : Store) (chunkHashes : List String) :
    List (ChunkHash × Bytes) :=
  chunkHashes.map fun text =>
    let hash := Convert.parseHashOrZero text
    match ChunkStore.readChunk ext.blake3 st hash with
    | .ok data => (hash, data)
    | .error _ => (hash, [])

def buildManifest (draws : RequestDraws) (pb : ManifestData) : Manifest where
  manifestId := draws.manifestId
  snapshotId :=
    match Convert.parseUuid ext pb.manifestId with
    | .ok uuid => uuid
    | .error _ => draws.manifestSnapshotId
  fileTree := pb.fileTree
  chunkRefs := pb.chunkRefs.map fun r =>
    { chunkHash := Convert.parseHashOrZero r.chunkHash
      offset := r.offset
      size := r.size }
  createdAt := draws.now

def buildSnapshot (draws : RequestDraws) (pb : SnapshotMeta)
    (manifest : Manifest) : Snapshot where
  snapshotId :=
    match Convert.parseUuid ext pb.snapshotId with
    | .ok uuid => uuid
    | .error _ => draws.snapshotId
  versionId :=
    match Convert.parseVersionId ext pb.versionId with
    | .ok v => v
    | .error _ => draws.versionId
  sourceMachine := { hostname := pb.sourceMachine, osType := "", agentVersion := "" }
  backupPolicy :=
    match ext.json.policyFromSlice pb.backupPolicy with
    | .ok policy => policy
    | .error _ => { paths := [], excludes := [], includes := [] }
  fileTree :=
    { root := pb.fileTreeRoot
      entries := manifest.chunkRefs.map fun r =>
        { path := pb.fileTreeRoot ++ "/chunk_" ++ toString r.offset.toNat
          size := r.size
          isDirectory := false
          chunkHashes := [r.chunkHash] } }
  chunkMapping := []
  encryptionInfo :=
    match ext.json.encryptionFromSlice pb.encryptionInfo with
    | .ok info => info
    | .error _ => { enabled := false, algorithm := "", keyRef := none }
  compressionInfo :=
    match ext.json.compressionFromSlice pb.compressionInfo with
    | .ok info => info
    | .error _ => { algorithm := "", level := 0 }
  verifyInfo := { verified := false, verifiedAt := none, checksum := none }
  status := .created
  createdAt := draws.now
  totalSize := pb.totalSize
  storedSize := pb.storedSize
  fileCount := pb.fileCount
  chunkCount := pb.chunkCount

/-- A commit request with its identifiers parsed and its parts present. -/
structure CommitArgs where
  repoId : RepositoryId
  parentVersionId : Option VersionId
  snapshotMeta : SnapshotMeta
  manifest : ManifestData
  chunkHashes : List String

def parseParent (text : String) : Except String (Option VersionId) :=
  if text = "" then .ok none
  else (Convert.parseVersionId ext text).map some

def parseCommit (req : SnapshotCommitRequest) : Except Status CommitArgs := do
  let repoId ← (Convert.parseRepoId ext req.repoId).mapError
    (toStatus .repoNotFound)
  let parentVersionId ← (parseParent ext req.parentVersionId).mapError
    (toStatus .versionNotFound)
  let snapshotMeta ← match req.snapshotMeta with
    | none => throw (toStatus .snapshotNotFound "missing snapshot meta")
    | some pb => pure pb
  let manifest ← match req.manifest with
    | none => throw (toStatus .manifestNotFound "missing manifest")
    | some pb => pure pb
  return {
    repoId := repoId
    parentVersionId := parentVersionId
    snapshotMeta := snapshotMeta
    manifest := manifest
    chunkHashes := req.chunkHashes }

/-- What a commit to the repository sees of the server. -/
def commitState (s : ServerState) (repoId : RepositoryId) : CommitState :=
  { repo := repoState s repoId, versions := s.versionOps }

def setCommitState (repoId : RepositoryId) (c : CommitState) (s : ServerState) :
    ServerState :=
  setRepo repoId c.repo { s with versionOps := c.versions }

/-- The commit of a parsed request, with the chunks read from the store. -/
def runCommit (draws : RequestDraws) (args : CommitArgs)
    (chunks : List (ChunkHash × Bytes)) : ServerM CommitResult :=
  let manifest := buildManifest ext draws args.manifest
  let snapshot := buildSnapshot ext draws args.snapshotMeta manifest
  zoom (fun s => commitState s args.repoId) (setCommitState args.repoId)
    commitErrorToStatus
    (CommitBackup.commitBackup layout ext.blake3 ext.json draws.commit
      args.repoId args.parentVersionId manifest snapshot chunks)

/-- The answer to a commit request. -/
def commitResponse (req : SnapshotCommitRequest) (repoId : RepositoryId)
    (s : ServerState) : CommitResult → Except Status SnapshotCommitResponse
  | .failure _ reason =>
      .error (toStatus .stateConflict ("commit failed: " ++ reason))
  | .success versionId snapshotId => do
      let version ← (s.versionOps.getVersion versionId).mapError
        versionErrorToStatus
      let snap ← (SnapshotStore.readSnapshot ext.json
        (repoState s repoId).catalog snapshotId).mapError snapshotErrorToStatus
      return {
        version := some (Convert.versionToPbInfo version)
        snapshot := some (Convert.snapshotToPbMeta ext snap req.repoId) }

def snapshotCommit (draws : RequestDraws)
    (request : Request SnapshotCommitRequest) :
    ServerM SnapshotCommitResponse := do
  let _ ← ofResult id request.auth
  let args ← ofResult id (parseCommit ext request.inner)
  let repo ← openRepo args.repoId
  let result ← runCommit ext layout draws args
    (loadChunks ext repo.store args.chunkHashes)
  let s ← get
  ofResult id (commitResponse ext request.inner args.repoId s result)

end SnapshotRpc

section Specs

variable {ext : Externals} {layout : BadouDataLayout}
variable {s : ServerState} {repoId r : RepositoryId}

@[simp] theorem repoState_setRepo (repo : OpenRepo) :
    repoState (setRepo repoId repo s) r =
      if r = repoId then repo else repoState s r := by
  unfold repoState setRepo
  rw [HashMap.lookup_insert_of]
  split
  · rfl
  · rfl

@[simp] theorem repoState_new (repoIds : List RepositoryId) :
    repoState (new repoIds) r = .empty := by
  have hall : ∀ (repos : HashMap RepositoryId OpenRepo),
      (repos.lookup r).getD .empty = .empty →
      ((repoIds.foldl (fun repos repoId => repos.insert repoId .empty)
        repos).lookup r).getD .empty = .empty := by
    induction repoIds with
    | nil =>
        intro repos h
        exact h
    | cons repoId repoIds ih =>
        intro repos h
        refine ih _ ?_
        rw [HashMap.lookup_insert_of]
        split
        · rfl
        · exact h
  exact hall ∅ rfl

@[simp] theorem parseHash_toHex (h : ChunkHash) :
    Convert.parseHash h.toHex = .ok h := by
  unfold Convert.parseHash
  rw [ChunkHash.toHex, Hex.decode_encode]
  simp

/-- Opening a repository changes nothing. -/
theorem run_openRepo (h : (s.repos.lookup repoId).isSome) :
    (openRepo repoId).run s = .ok (repoState s repoId) s := by
  obtain ⟨repo, hrepo⟩ := Option.isSome_iff_exists.mp h
  simp only [openRepo, EStateM.run_bind, EStateM.run_get, hrepo, repoState,
    EStateM.run_pure, Option.getD_some]

theorem run_openRepo_unknown (h : s.repos.lookup repoId = none) :
    (openRepo repoId).run s = .error (repoNotFoundStatus repoId) s := by
  simp only [openRepo, EStateM.run_bind, EStateM.run_get, h]
  rfl

/-- A repository that is opened is known, and opening it changes nothing. -/
theorem of_run_openRepo {repo : OpenRepo} {s' : ServerState}
    (h : (openRepo repoId).run s = .ok repo s') :
    (s.repos.lookup repoId).isSome ∧ repo = repoState s repoId ∧ s' = s := by
  have hknown : (s.repos.lookup repoId).isSome := by
    by_contra hnone
    rw [run_openRepo_unknown (by simpa using hnone)] at h
    cases h
  cases (run_openRepo hknown).symm.trans h
  exact ⟨hknown, rfl, rfl⟩

theorem stateAfter_openRepo : stateAfter (openRepo repoId) s = s := by
  cases hrepo : s.repos.lookup repoId with
  | none =>
      simp only [stateAfter, run_openRepo_unknown hrepo]
  | some repo =>
      have hsome : (s.repos.lookup repoId).isSome := by simp [hrepo]
      simp only [stateAfter, run_openRepo hsome]

/-- An upload to the store is a chunk write and cannot fail. -/
theorem run_putChunk
    (layout : BadouDataLayout) (repoId : RepositoryId)
    (h : ChunkHash) (data : Bytes) (st : Store) :
    ∃ loc, (ChunkOps.putChunk layout repoId h data).run st =
      .ok loc (stateAfter (ChunkStore.writeChunk layout repoId h data) st) := by
  obtain ⟨loc, hrun⟩ := ChunkStore.exists_run_writeChunk layout repoId st h data
  refine ⟨loc, ?_⟩
  simp only [ChunkOps.putChunk, EStateM.run_adaptExcept, hrun]

/-- The server after a chunk is written to a repository. -/
def withChunk (layout : BadouDataLayout) (repoId : RepositoryId)
    (h : ChunkHash) (data : Bytes) (s : ServerState) : ServerState :=
  setRepo repoId
    { repoState s repoId with
      store := stateAfter (ChunkStore.writeChunk layout repoId h data)
        (repoState s repoId).store } s

theorem run_onStore_putChunk
    (layout : BadouDataLayout) (repoId : RepositoryId)
    (h : ChunkHash) (data : Bytes) (s : ServerState) :
    ∃ loc, (onStore repoId (ChunkOps.putChunk layout repoId h data)).run s =
      .ok loc (withChunk layout repoId h data s) := by
  obtain ⟨loc, hrun⟩ := run_putChunk layout repoId h data
    (repoState s repoId).store
  exact ⟨loc, run_zoom_ok hrun⟩

/-- The chunk an upload writes, if it passes all checks. -/
def putTarget (ext : Externals) (s : ServerState)
    (request : Request ChunkPutRequest) :
    Option (RepositoryId × ChunkHash × Bytes) :=
  match request.auth, parsePut ext request.inner with
  | .ok (), .ok (repoId, _, hash, data) =>
      if ext.blake3 data = hash ∧ (s.repos.lookup repoId).isSome then
        some (repoId, hash, data)
      else none
  | _, _ => none

theorem putTarget_eq_some_iff
    {request : Request ChunkPutRequest} {h : ChunkHash} {data : Bytes} :
    putTarget ext s request = some (repoId, h, data) ↔
      request.auth = .ok () ∧
      (∃ chunk, parsePut ext request.inner = .ok (repoId, chunk, h, data)) ∧
      ext.blake3 data = h ∧ (s.repos.lookup repoId).isSome := by
  unfold putTarget
  cases request.auth with
  | error e =>
      simp
  | ok u =>
      cases parsePut ext request.inner with
      | error e =>
          simp
      | ok parsed =>
          obtain ⟨r, chunk, hash, d⟩ := parsed
          simp only [Option.ite_none_right_eq_some, Option.some.injEq,
            Prod.mk.injEq, Except.ok.injEq, exists_and_left, true_and]
          constructor
          · rintro ⟨⟨hhash, hrepo⟩, rfl, rfl, rfl⟩
            exact ⟨⟨rfl, chunk, rfl, rfl, rfl⟩, hhash, hrepo⟩
          · rintro ⟨⟨rfl, _, _, rfl, rfl⟩, hhash, hrepo⟩
            exact ⟨⟨hhash, hrepo⟩, rfl, rfl, rfl⟩

theorem parsePut_eq_ok_iff
    {req : ChunkPutRequest} {chunk : ChunkData} {h : ChunkHash} {data : Bytes} :
    parsePut ext req = .ok (repoId, chunk, h, data) ↔
      Convert.parseRepoId ext req.repoId = .ok repoId ∧
      req.chunk = some chunk ∧ Convert.parseHash chunk.chunkHash = .ok h ∧
      chunk.data = data := by
  unfold parsePut Convert.pbToChunkData
  cases Convert.parseRepoId ext req.repoId with
  | error e =>
      simp [bind, Except.bind, Except.mapError]
  | ok r =>
      cases req.chunk with
      | none =>
          simp [bind, Except.bind, Except.mapError, throw, throwThe,
            MonadExceptOf.throw]
      | some c =>
          cases hhash : Convert.parseHash c.chunkHash with
          | error e =>
              simp only [bind, Except.bind, Except.mapError, hhash]
              refine iff_of_false (by simp) ?_
              rintro ⟨-, hc, hh, -⟩
              cases hc
              rw [hhash] at hh
              cases hh
          | ok hash =>
              simp only [bind, Except.bind, Except.mapError, hhash, pure,
                Except.pure, Except.ok.injEq, Prod.mk.injEq, Option.some.injEq]
              constructor
              · rintro ⟨rfl, rfl, rfl, rfl⟩
                exact ⟨rfl, rfl, hhash, rfl⟩
              · rintro ⟨rfl, rfl, hh, rfl⟩
                rw [hhash] at hh
                cases hh
                exact ⟨rfl, rfl, rfl, rfl⟩

/-- An upload that is answered has passed all checks. -/
theorem exists_putTarget
    {request : Request ChunkPutRequest} {info : ChunkInfo}
    (h : outcome (chunkPut ext layout request) s = .ok info) :
    ∃ target, putTarget ext s request = some target := by
  have hrun := run_eq_ok_iff.mpr ⟨h, rfl⟩
  unfold chunkPut at hrun
  obtain ⟨u, s₁, h₁, hrun⟩ := run_bind_eq_ok.mp hrun
  obtain ⟨hauth, rfl⟩ := run_ofResult_eq_ok.mp h₁
  obtain ⟨⟨repoId, chunk, hash, data⟩, s₂, h₂, hrun⟩ := run_bind_eq_ok.mp hrun
  obtain ⟨hparse, rfl⟩ := run_ofResult_eq_ok.mp h₂
  by_cases hhash : ext.blake3 data = hash
  · simp only [hhash, ne_eq, not_true_eq_false, if_false] at hrun
    obtain ⟨repo, s₃, h₃, -⟩ := run_bind_eq_ok.mp hrun
    exact ⟨(repoId, hash, data), putTarget_eq_some_iff.mpr
      ⟨hauth, ⟨chunk, hparse⟩, hhash, (of_run_openRepo h₃).1⟩⟩
  · simp only [hhash, ne_eq, not_false_eq_true, if_true] at hrun
    cases hrun

/-- An upload writes its chunk or changes nothing. -/
theorem stateAfter_chunkPut (request : Request ChunkPutRequest) :
    stateAfter (chunkPut ext layout request) s =
      match putTarget ext s request with
      | none => s
      | some (repoId, hash, data) => withChunk layout repoId hash data s := by
  unfold chunkPut putTarget
  cases hauth : request.auth with
  | error e =>
      rfl
  | ok u =>
      rw [stateAfter_bind_of_run (run_ofResult_eq_ok.mpr ⟨rfl, rfl⟩)]
      cases hparse : parsePut ext request.inner with
      | error e =>
          rfl
      | ok parsed =>
          obtain ⟨repoId, chunk, hash, data⟩ := parsed
          rw [stateAfter_bind_of_run (run_ofResult_eq_ok.mpr ⟨rfl, rfl⟩)]
          by_cases hhash : ext.blake3 data = hash
          · simp only [hhash, ne_eq, not_true_eq_false, if_false, true_and]
            cases hrepo : s.repos.lookup repoId with
            | none =>
                rw [stateAfter_bind_of_error (run_openRepo_unknown hrepo)]
                simp
            | some repo =>
                obtain ⟨loc, hput⟩ :=
                  run_onStore_putChunk layout repoId hash data s
                rw [stateAfter_bind_of_run (run_openRepo (by simp [hrepo])),
                  stateAfter_bind_of_run hput]
                rfl
          · simp only [hhash, ne_eq, not_false_eq_true, if_true, false_and,
              if_false]
            rfl

/-- An upload that passes all checks is answered. -/
theorem run_chunkPut {request : Request ChunkPutRequest} {hash : ChunkHash}
    {data : Bytes}
    (h : putTarget ext s request = some (repoId, hash, data)) :
    ∃ info, (chunkPut ext layout request).run s =
      .ok info (withChunk layout repoId hash data s) := by
  obtain ⟨hauth, ⟨chunk, hparse⟩, hhash, hknown⟩ := putTarget_eq_some_iff.mp h
  obtain ⟨loc, hput⟩ := run_onStore_putChunk layout repoId hash data s
  refine ⟨Convert.makeChunkInfo chunk (ChunkStore.refCount
    (repoState (withChunk layout repoId hash data s) repoId).store hash), ?_⟩
  unfold chunkPut
  refine (run_bind_of_ok (run_ofResult_eq_ok.mpr ⟨hauth, rfl⟩)).trans
    ((run_bind_of_ok (run_ofResult_eq_ok.mpr ⟨hparse, rfl⟩)).trans ?_)
  simp only [hhash, ne_eq, not_true_eq_false, if_false]
  exact (run_bind_of_ok (run_openRepo hknown)).trans
    ((run_bind_of_ok hput).trans rfl)

/-- What can be read under a hash is what a client gets. -/
theorem run_chunkGet {request : Request ChunkGetRequest} {hash : ChunkHash}
    {data : Bytes} (hauth : request.auth = .ok ())
    (hrepo : Convert.parseRepoId ext request.inner.repoId = .ok repoId)
    (hhash : Convert.parseHash request.inner.chunkHash = .ok hash)
    (hknown : (s.repos.lookup repoId).isSome)
    (hread : ChunkStore.readChunk ext.blake3 (repoState s repoId).store hash =
      .ok data) :
    (chunkGet ext request).run s =
      .ok { chunkHash := request.inner.chunkHash
            data := data
            size := UInt64.ofNat data.length } s := by
  have hget : ChunkOps.getChunk ext.blake3 (repoState s repoId).store hash =
      .ok data := by
    rw [ChunkOps.getChunk, hread]
  unfold chunkGet
  exact (run_bind_of_ok (run_ofResult_eq_ok.mpr ⟨hauth, rfl⟩)).trans
    ((run_bind_of_ok (run_ofResult_eq_ok.mpr ⟨hrepo, rfl⟩)).trans
      ((run_bind_of_ok (run_ofResult_eq_ok.mpr ⟨hhash, rfl⟩)).trans
        ((run_bind_of_ok (run_openRepo hknown)).trans
          (run_bind_of_ok (run_ofResult_eq_ok.mpr ⟨hget, rfl⟩)))))

/-- A client that gets a chunk is authorized for a known repository and gets
what can be read there. -/
theorem of_run_chunkGet {request : Request ChunkGetRequest}
    {chunk : ChunkData} {s' : ServerState}
    (h : (chunkGet ext request).run s = .ok chunk s') :
    ∃ repoId hash, request.auth = .ok () ∧
      Convert.parseRepoId ext request.inner.repoId = .ok repoId ∧
      Convert.parseHash request.inner.chunkHash = .ok hash ∧
      (s.repos.lookup repoId).isSome ∧
      ChunkStore.readChunk ext.blake3 (repoState s repoId).store hash =
        .ok chunk.data ∧ s' = s := by
  unfold chunkGet at h
  obtain ⟨_, s₁, h₁, hrun₁⟩ := run_bind_eq_ok.mp h
  obtain ⟨hauth, rfl⟩ := run_ofResult_eq_ok.mp h₁
  obtain ⟨repoId, s₂, h₂, hrun₂⟩ := run_bind_eq_ok.mp hrun₁
  obtain ⟨hrepo, rfl⟩ := run_ofResult_eq_ok.mp h₂
  obtain ⟨hash, s₃, h₃, hrun₃⟩ := run_bind_eq_ok.mp hrun₂
  obtain ⟨hhash, rfl⟩ := run_ofResult_eq_ok.mp h₃
  obtain ⟨repo, s₄, h₄, hrun₄⟩ := run_bind_eq_ok.mp hrun₃
  obtain ⟨hknown, rfl, rfl⟩ := of_run_openRepo h₄
  obtain ⟨data, s₅, h₅, hrun₅⟩ := run_bind_eq_ok.mp hrun₄
  obtain ⟨hget, rfl⟩ := run_ofResult_eq_ok.mp h₅
  cases hrun₅
  refine ⟨repoId, hash, hauth, hrepo, hhash, hknown, ?_, rfl⟩
  unfold ChunkOps.getChunk at hget
  split at hget
  · next hread =>
      cases hget
      exact hread
  · cases hget
  · cases hget

/-- Whether a chunk exists is a matter of its references. -/
theorem run_chunkExists {request : Request ChunkExistsRequest}
    {hash : ChunkHash} (hauth : request.auth = .ok ())
    (hrepo : Convert.parseRepoId ext request.inner.repoId = .ok repoId)
    (hhash : Convert.parseHash request.inner.chunkHash = .ok hash)
    (hknown : (s.repos.lookup repoId).isSome) :
    ∃ response, (chunkExists ext request).run s = .ok response s ∧
      response.exists_ =
        decide (ChunkStore.refCount (repoState s repoId).store hash > 0) := by
  unfold chunkExists
  refine ⟨_, (run_bind_of_ok (run_ofResult_eq_ok.mpr ⟨hauth, rfl⟩)).trans
    ((run_bind_of_ok (run_ofResult_eq_ok.mpr ⟨hrepo, rfl⟩)).trans
      ((run_bind_of_ok (run_ofResult_eq_ok.mpr ⟨hhash, rfl⟩)).trans
        ((run_bind_of_ok (run_openRepo hknown)).trans rfl))), rfl⟩

/-- The commit a request leads to, if it gets to its chunks. -/
def commitTarget (ext : Externals) (s : ServerState) (draws : RequestDraws)
    (request : Request SnapshotCommitRequest) : Option CommitArgs :=
  match request.auth, parseCommit ext request.inner with
  | .ok (), .ok args =>
      if (s.repos.lookup args.repoId).isSome ∧
          CommitBackup.Admits (commitState s args.repoId) args.parentVersionId
            draws.commit.versionId then
        some args
      else none
  | _, _ => none

/-- A commit that gets to its chunks has been admitted. -/
theorem admits_of_commitTarget
    {draws : RequestDraws} {request : Request SnapshotCommitRequest}
    {args : CommitArgs} (h : commitTarget ext s draws request = some args) :
    CommitBackup.Admits (commitState s args.repoId) args.parentVersionId
      draws.commit.versionId := by
  unfold commitTarget at h
  split at h
  · split at h
    next hadmits =>
      cases h
      exact hadmits.2
    · cases h
  · cases h

/-- The chunks a commit writes. -/
def commitChunks (ext : Externals) (s : ServerState) (args : CommitArgs) :
    List (ChunkHash × Bytes) :=
  loadChunks ext (repoState s args.repoId).store args.chunkHashes

/-- Of a commit request only the commit itself changes the server. -/
theorem stateAfter_snapshotCommit
    {draws : RequestDraws} {request : Request SnapshotCommitRequest}
    {args : CommitArgs} (hauth : request.auth = .ok ())
    (hparse : parseCommit ext request.inner = .ok args)
    (hrepo : (s.repos.lookup args.repoId).isSome) :
    stateAfter (snapshotCommit ext layout draws request) s =
      stateAfter (runCommit ext layout draws args (commitChunks ext s args)) s := by
  unfold snapshotCommit commitChunks
  rw [hauth, stateAfter_bind_of_run (run_ofResult_eq_ok.mpr ⟨rfl, rfl⟩),
    hparse, stateAfter_bind_of_run (run_ofResult_eq_ok.mpr ⟨rfl, rfl⟩),
    stateAfter_bind_of_run (run_openRepo hrepo), stateAfter_bind]
  split
  · rw [stateAfter_bind_of_run (EStateM.run_get _), stateAfter_ofResult]
  · rfl

/-- The stores after the commit of a request. -/
theorem store_runCommit
    (draws : RequestDraws) (args : CommitArgs)
    (chunks : List (ChunkHash × Bytes)) :
    (repoState (stateAfter (runCommit ext layout draws args chunks) s) r).store =
      if r = args.repoId ∧ CommitBackup.Admits (commitState s args.repoId)
          args.parentVersionId draws.commit.versionId then
        stateAfter (ChunkStore.writeChunks layout r chunks) (repoState s r).store
      else (repoState s r).store := by
  rw [runCommit, stateAfter_zoom, setCommitState, repoState_setRepo]
  by_cases hr : r = args.repoId
  · subst hr
    by_cases hadmits : CommitBackup.Admits (commitState s args.repoId)
        args.parentVersionId draws.commit.versionId
    · simp only [hadmits, and_self, if_true]
      exact CommitBackup.store_commitBackup_of_admits hadmits
    · simp only [hadmits, and_false, if_true, if_false]
      exact CommitBackup.store_commitBackup_of_not_admits hadmits
  · simp only [hr, false_and, if_false]
    rfl

/-- A commit request that does not parse or names no repository changes
nothing; any other does what its commit does. -/
theorem stateAfter_snapshotCommit_cases
    (ext : Externals) (layout : BadouDataLayout) (s : ServerState)
    (draws : RequestDraws) (request : Request SnapshotCommitRequest) :
    (commitTarget ext s draws request = none ∧
      stateAfter (snapshotCommit ext layout draws request) s = s) ∨
    ∃ args, parseCommit ext request.inner = .ok args ∧
      stateAfter (snapshotCommit ext layout draws request) s =
        stateAfter (runCommit ext layout draws args (commitChunks ext s args)) s ∧
      commitTarget ext s draws request =
        if CommitBackup.Admits (commitState s args.repoId) args.parentVersionId
          draws.commit.versionId then some args else none := by
  cases hauth : request.auth with
  | error e =>
      refine Or.inl ⟨by simp [commitTarget, hauth], ?_⟩
      simp only [snapshotCommit, hauth]
      rfl
  | ok u =>
      cases hparse : parseCommit ext request.inner with
      | error e =>
          refine Or.inl ⟨by simp [commitTarget, hauth, hparse], ?_⟩
          simp only [snapshotCommit, hauth, hparse]
          rfl
      | ok args =>
          cases hrepo : s.repos.lookup args.repoId with
          | none =>
              refine Or.inl ⟨by simp [commitTarget, hauth, hparse, hrepo], ?_⟩
              simp only [snapshotCommit, hauth, hparse]
              rw [stateAfter_bind_of_run (run_ofResult_eq_ok.mpr ⟨rfl, rfl⟩),
                stateAfter_bind_of_run (run_ofResult_eq_ok.mpr ⟨rfl, rfl⟩),
                stateAfter_bind_of_error (run_openRepo_unknown hrepo)]
          | some repo =>
              refine Or.inr ⟨args, rfl,
                stateAfter_snapshotCommit hauth hparse (by simp [hrepo]), ?_⟩
              simp [commitTarget, hauth, hparse, hrepo]

/-- The stores after a commit request. -/
theorem store_snapshotCommit
    (ext : Externals) (layout : BadouDataLayout) (s : ServerState)
    (r : RepositoryId) (draws : RequestDraws) (request : Request SnapshotCommitRequest) :
    (repoState (stateAfter (snapshotCommit ext layout draws request) s) r).store =
      match commitTarget ext s draws request with
      | none => (repoState s r).store
      | some args =>
          if r = args.repoId then
            stateAfter (ChunkStore.writeChunks layout r (commitChunks ext s args))
              (repoState s r).store
          else (repoState s r).store := by
  obtain ⟨htarget, hstate⟩ | ⟨args, -, hstate, htarget⟩ :=
    stateAfter_snapshotCommit_cases ext layout s draws request
  · rw [htarget, hstate]
  · rw [hstate, htarget, store_runCommit]
    by_cases hadmits : CommitBackup.Admits (commitState s args.repoId)
        args.parentVersionId draws.commit.versionId
    · simp [hadmits]
    · simp [hadmits]

/-- No commit request touches the second index of a repository. -/
theorem index_snapshotCommit
    (ext : Externals) (layout : BadouDataLayout) (s : ServerState)
    (r : RepositoryId) (draws : RequestDraws) (request : Request SnapshotCommitRequest) :
    (repoState (stateAfter (snapshotCommit ext layout draws request) s) r).index =
      (repoState s r).index := by
  obtain ⟨-, hstate⟩ | ⟨args, -, hstate, -⟩ :=
    stateAfter_snapshotCommit_cases ext layout s draws request
  · rw [hstate]
  · rw [hstate, runCommit, stateAfter_zoom, setCommitState, repoState_setRepo]
    by_cases hr : r = args.repoId
    · rw [if_pos hr, CommitBackup.index_commitBackup, hr]
      rfl
    · rw [if_neg hr]
      rfl

/-- What a commit writes under a hash. -/
def load (ext : Externals) (st : Store) (h : ChunkHash) : Bytes :=
  match ChunkStore.readChunk ext.blake3 st h with
  | .ok data => data
  | .error _ => []

theorem loadChunks_eq (st : Store) (texts : List String) :
    Server.loadChunks ext st texts =
      (texts.map Convert.parseHashOrZero).map fun h => (h, load ext st h) := by
  unfold Server.loadChunks load
  rw [List.map_map]
  refine List.map_congr_left fun text _ => ?_
  simp only [Function.comp_apply]
  cases ChunkStore.readChunk ext.blake3 st (Convert.parseHashOrZero text) with
  | ok data =>
      rfl
  | error e =>
      rfl

/-- Under a hash the index does not have, a commit writes no bytes. -/
theorem load_of_not_chunkExists
    {st : Store} {h : ChunkHash}
    (hnew : ¬ ChunkStore.chunkExists st h) : load ext st h = [] := by
  have hnone : st.index.lookup h.toHex = none := by
    simpa [ChunkStore.chunkExists] using hnew
  unfold load ChunkStore.readChunk
  rw [hnone]
  rfl

/-- A commit can read back what it writes under the hash: the chunk can be
read already, or it is new and has no bytes. -/
def verifiable (ext : Externals) (st : Store) (h : ChunkHash) : Bool :=
  match ChunkStore.readChunk ext.blake3 st h with
  | .ok _ => true
  | .error _ => !ChunkStore.chunkExists st h && decide (ext.blake3 [] = h)

/-- What a commit has written is read back if it is verifiable. -/
theorem readChunk_load_iff
    {st : Store} {hashes : List ChunkHash} {h : ChunkHash}
    (ht : st.Tidy layout repoId) (hmem : h ∈ hashes) :
    ChunkStore.readChunk ext.blake3 (stateAfter (ChunkStore.writeChunks layout
        repoId (hashes.map fun h => (h, load ext st h))) st) h =
        .ok (load ext st h) ↔
      verifiable ext st h = true := by
  unfold verifiable
  by_cases hknown : ChunkStore.chunkExists st h
  · rw [ChunkStore.readChunk_writeChunks_of_exists _ ht.addressed hknown, load]
    cases ChunkStore.readChunk ext.blake3 st h with
    | ok data =>
        simp
    | error e =>
        simp [hknown]
  · rw [ChunkStore.readChunk_writeChunks_of_new _ _ hmem ht.addressed hknown,
      load_of_not_chunkExists hknown]
    have hread : ∀ data, ChunkStore.readChunk ext.blake3 st h ≠ .ok data := by
      intro data hdata
      exact hknown ((ChunkStore.readChunk_eq_ok_iff_of_addressed
        ht.addressed).mp hdata).1
    cases hr : ChunkStore.readChunk ext.blake3 st h with
    | ok data =>
        exact absurd hr (hread data)
    | error e =>
        simp [hknown]

/-- A commit that gets to its chunks succeeds exactly if all of them are
verifiable. -/
theorem outcome_runCommit
    {draws : RequestDraws} {args : CommitArgs}
    (ht : (repoState s args.repoId).store.Tidy layout args.repoId)
    (hadmits : CommitBackup.Admits (commitState s args.repoId)
      args.parentVersionId draws.commit.versionId) :
    (∃ v id, outcome (runCommit ext layout draws args (commitChunks ext s args))
      s = .ok (.success v id)) ↔
      ∀ text ∈ args.chunkHashes, verifiable ext
        (repoState s args.repoId).store (Convert.parseHashOrZero text) = true := by
  have hmap : ∀ (r : Except CommitError CommitResult) v id,
      r.mapError commitErrorToStatus = .ok (.success v id) ↔
        r = .ok (.success v id) := by
    intro r v id
    cases r with
    | ok result =>
        simp [Except.mapError]
    | error e =>
        simp [Except.mapError]
  rw [runCommit, outcome_zoom]
  simp only [hmap]
  rw [CommitBackup.outcome_commitBackup, and_iff_right hadmits,
    CommitBackup.verifyChunks_eq_ok_true_iff, commitChunks, loadChunks_eq,
    List.forall_mem_map, List.forall_mem_map]
  refine forall₂_congr fun text hmem => ?_
  exact readChunk_load_iff ht (List.mem_map_of_mem hmem)

/-- The commit inside a parsed request, with the chunks it reads. -/
def innerCommit (ext : Externals) (layout : BadouDataLayout) (s : ServerState)
    (draws : RequestDraws) (args : CommitArgs) :
    CommitBackup.CommitM CommitResult :=
  let manifest := buildManifest ext draws args.manifest
  CommitBackup.commitBackup layout ext.blake3 ext.json draws.commit args.repoId
    args.parentVersionId manifest
    (buildSnapshot ext draws args.snapshotMeta manifest)
    (commitChunks ext s args)

/-- A commit request that is answered has run its commit in a known
repository, and the answer is made from the state it leaves. -/
theorem run_of_answer
    {draws : RequestDraws} {request : Request SnapshotCommitRequest}
    {args : CommitArgs} {response : SnapshotCommitResponse}
    (hparse : parseCommit ext request.inner = .ok args)
    (h : outcome (snapshotCommit ext layout draws request) s = .ok response) :
    (s.repos.lookup args.repoId).isSome ∧
      ∃ result, (runCommit ext layout draws args (commitChunks ext s args)).run s =
          .ok result (stateAfter (snapshotCommit ext layout draws request) s) ∧
        commitResponse ext request.inner args.repoId
          (stateAfter (snapshotCommit ext layout draws request) s) result =
            .ok response := by
  generalize hs' : stateAfter (snapshotCommit ext layout draws request) s = s'
  have hrun := run_eq_ok_iff.mpr ⟨h, hs'⟩
  clear h hs'
  unfold snapshotCommit at hrun
  obtain ⟨_, s₁, h₁, hrun₁⟩ := run_bind_eq_ok.mp hrun
  obtain ⟨-, rfl⟩ := run_ofResult_eq_ok.mp h₁
  obtain ⟨args', s₂, h₂, hrun₂⟩ := run_bind_eq_ok.mp hrun₁
  obtain ⟨hargs, rfl⟩ := run_ofResult_eq_ok.mp h₂
  cases hparse.symm.trans hargs
  obtain ⟨repo, s₃, h₃, hrun₃⟩ := run_bind_eq_ok.mp hrun₂
  obtain ⟨hrepo, rfl, rfl⟩ := of_run_openRepo h₃
  obtain ⟨result, s₄, h₄, hrun₄⟩ := run_bind_eq_ok.mp hrun₃
  obtain ⟨_, s₅, h₅, hrun₅⟩ := run_bind_eq_ok.mp hrun₄
  cases h₅
  obtain ⟨hresponse, rfl⟩ := run_ofResult_eq_ok.mp hrun₅
  exact ⟨hrepo, result, h₄, hresponse⟩

/-- The commit inside an answered request has succeeded. -/
theorem innerCommit_of_run
    {draws : RequestDraws} {args : CommitArgs} {v : VersionId} {id : Uuid}
    {s' : ServerState}
    (h : (runCommit ext layout draws args (commitChunks ext s args)).run s =
      .ok (.success v id) s') :
    outcome (innerCommit ext layout s draws args)
      (commitState s args.repoId) = .ok (.success v id) := by
  obtain ⟨hresult, -⟩ := run_eq_ok_iff.mp h
  rw [runCommit, outcome_zoom] at hresult
  change (outcome (innerCommit ext layout s draws args)
    (commitState s args.repoId)).mapError commitErrorToStatus =
      .ok (.success v id) at hresult
  cases hout : outcome (innerCommit ext layout s draws args)
      (commitState s args.repoId) with
  | error e =>
      rw [hout] at hresult
      cases hresult
  | ok r =>
      rw [hout] at hresult
      cases hresult
      rfl

/-- A commit request that is answered has committed successfully, and leaves
the repository as its commit does. -/
theorem success_of_answer
    {draws : RequestDraws} {request : Request SnapshotCommitRequest}
    {args : CommitArgs} {response : SnapshotCommitResponse}
    (hparse : parseCommit ext request.inner = .ok args)
    (h : outcome (snapshotCommit ext layout draws request) s = .ok response) :
    (∃ v id, outcome (innerCommit ext layout s draws args)
      (commitState s args.repoId) = .ok (.success v id)) ∧
    repoState (stateAfter (snapshotCommit ext layout draws request) s)
        args.repoId =
      (stateAfter (innerCommit ext layout s draws args)
        (commitState s args.repoId)).repo := by
  obtain ⟨-, result, hrun, hresponse⟩ := run_of_answer hparse h
  constructor
  · cases result with
    | failure v reason =>
        -- A failed commit is answered with an error.
        cases hresponse
    | success v id =>
        exact ⟨v, id, innerCommit_of_run hrun⟩
  · obtain ⟨-, hstate⟩ := run_eq_ok_iff.mp hrun
    rw [← hstate, runCommit, stateAfter_zoom, setCommitState, repoState_setRepo,
      if_pos rfl]
    rfl

/-- A request whose commit succeeds is answered if the new version and its
snapshot are found. -/
theorem answer_of_success
    {draws : RequestDraws} {request : Request SnapshotCommitRequest}
    {args : CommitArgs} {c : CommitState} {v : VersionId} {id : Uuid}
    {version : Version} {snap : Snapshot}
    (hauth : request.auth = .ok ())
    (hparse : parseCommit ext request.inner = .ok args)
    (hrepo : (s.repos.lookup args.repoId).isSome)
    (hcommit : (innerCommit ext layout s draws args).run
      (commitState s args.repoId) = .ok (.success v id) c)
    (hversion : c.versions.getVersion v = .ok version)
    (hsnapshot : SnapshotStore.readSnapshot ext.json c.repo.catalog id =
      .ok snap) :
    ∃ response, outcome (snapshotCommit ext layout draws request) s =
      .ok response := by
  have hrun : (runCommit ext layout draws args (commitChunks ext s args)).run s =
      .ok (.success v id) (setCommitState args.repoId c s) :=
    run_zoom_ok hcommit
  have hcatalog : (repoState (setCommitState args.repoId c s)
      args.repoId).catalog = c.repo.catalog := by
    rw [setCommitState, repoState_setRepo, if_pos rfl]
  rw [commitChunks] at hrun
  unfold snapshotCommit
  rw [hauth, hparse, outcome_bind_of_run (run_ofResult_eq_ok.mpr ⟨rfl, rfl⟩),
    outcome_bind_of_run (run_ofResult_eq_ok.mpr ⟨rfl, rfl⟩),
    outcome_bind_of_run (run_openRepo hrepo), outcome_bind_of_run hrun,
    outcome_bind_of_run (EStateM.run_get _)]
  have hresponse : commitResponse ext request.inner args.repoId
      (setCommitState args.repoId c s) (.success v id) = .ok
        { version := some (Convert.versionToPbInfo version)
          snapshot := some (Convert.snapshotToPbMeta ext snap
            request.inner.repoId) } := by
    rw [commitResponse, hcatalog, hsnapshot]
    change (c.versions.getVersion v).mapError versionErrorToStatus >>= _ = _
    rw [hversion]
    rfl
  exact ⟨_, (run_eq_ok_iff.mp (run_ofResult_eq_ok.mpr ⟨hresponse, rfl⟩)).1⟩

end Specs

section Examples

/-- A commit to the repository 1 that lists the given hashes. -/
def commitOf (chunkHashes : List String) : Request SnapshotCommitRequest where
  auth := .ok ()
  inner :=
    { repoId := "00000000-0000-0000-0000-000000000001"
      parentVersionId := ""
      snapshotMeta := some
        { snapshotId := "", versionId := "", repoId := "", status := 0
          sourceMachine := "", backupPolicy := [], fileTreeRoot := ""
          encryptionInfo := [], compressionInfo := []
          totalSize := 0, storedSize := 0, fileCount := 0, chunkCount := 0
          createdAt := none }
      manifest := some { manifestId := "", fileTree := [], chunkRefs := [] }
      chunkHashes := chunkHashes }

/-- Fresh identifiers for a commit, counting from the given number. -/
def drawsFrom (n : Nat) : RequestDraws where
  manifestId := BitVec.ofNat 128 n
  manifestSnapshotId := BitVec.ofNat 128 (n + 1)
  versionId := ⟨BitVec.ofNat 128 (n + 2)⟩
  snapshotId := BitVec.ofNat 128 (n + 3)
  now := 0
  commit :=
    { now := 0
      versionId := ⟨BitVec.ofNat 128 (n + 4)⟩
      snapshotId := BitVec.ofNat 128 (n + 5) }

/-- An upload of the empty chunk to the repository 1. -/
def putEmpty : Request ChunkPutRequest where
  auth := .ok ()
  inner :=
    { repoId := "00000000-0000-0000-0000-000000000001"
      chunk := some
        { chunkHash := ChunkHash.ofEmpty.toHex, data := [], size := 0 } }

/-- UUIDs and hashes as they are for the texts and the bytes of a commit to
the repository 1 with no chunk but the empty one. -/
def externalsWith (json : Json) : Externals where
  blake3 := fun _ => .ofEmpty
  parseUuid := fun text =>
    if text = "" then
      .error "invalid length: expected length 32 for simple format, found 0"
    else .ok 1
  json := json

end Examples

end Server

end Badou
end HyperBackup
