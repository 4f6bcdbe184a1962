import HyperBackup.Badou.Json
import HyperBackup.Badou.Server

/-!
# Recovering a committed snapshot

A recovery walks the file tree of a sealed snapshot and reads the chunks of
every file from the store.  A file with a chunk that cannot be read is
reported as failed.

The server builds the file tree of a snapshot out of the chunk references of
the manifest in the request.  What a commit verifies is another list of the
same request, the chunk hashes.  The main result says for which requests the
two lists fit together well enough that everything can be recovered.
-/

namespace HyperBackup
namespace Badou

open Lib Lib.Program

inductive RecoveryError
  | snapshotNotFound (snapshotId : Uuid)
  | snapshotCorrupted (snapshotId : Uuid)
  | notSealed (status : SnapshotStatus)
  | chunkNotFound (chunkHash : String)
  | hashMismatch (expected actual : String)
deriving DecidableEq

def SnapshotStatus.debugText : SnapshotStatus → String
  | .created => "Created"
  | .writing => "Writing"
  | .sealed => "Sealed"
  | .corrupt => "Corrupt"
  | .deleted => "Deleted"

def RecoveryError.message : RecoveryError → String
  | .snapshotNotFound id => "snapshot not found: " ++ uuidText id
  | .snapshotCorrupted id => "snapshot corrupted: " ++ uuidText id
  | .notSealed status =>
      "snapshot not sealed: current status is " ++ status.debugText
  | .chunkNotFound chunkHash => "chunk not found: " ++ chunkHash
  | .hashMismatch expected actual =>
      "chunk hash mismatch: expected " ++ expected ++ ", got " ++ actual

structure RecoveryRequest where
  snapshotId : Uuid
  fileFilter : Option (List String)

structure RecoveredFile where
  path : String
  size : UInt64
  data : Bytes
  chunkHashes : List String
deriving DecidableEq

structure RecoveryFailure where
  path : String
  reason : String
deriving DecidableEq

structure RecoveryResult where
  snapshotId : Uuid
  versionId : VersionId
  recoveredFiles : List RecoveredFile
  failedFiles : List RecoveryFailure
  totalBytes : UInt64
deriving DecidableEq

namespace RecoveryEngine

section Operations

variable (blake3 : Bytes → ChunkHash) (json : Json)
variable (st : Store) (catalog : Catalog)

/-- Read one chunk and check its hash once more. -/
def recoverChunk (chunkHash : ChunkHash) : Except RecoveryError Bytes :=
  match ChunkStore.readChunk blake3 st chunkHash with
  | .error _ => .error (.chunkNotFound chunkHash.toHex)
  | .ok data =>
      let actualHash := blake3 data
      if actualHash ≠ chunkHash then
        .error (.hashMismatch chunkHash.toHex actualHash.toHex)
      else .ok data

def recoverFile (entry : FileEntry) : Except RecoveryError RecoveredFile := do
  let (data, chunkHashes) ← entry.chunkHashes.foldlM
    (fun (acc : Bytes × List String) chunkHash => do
      let chunk ← recoverChunk blake3 st chunkHash
      return (acc.1 ++ chunk, acc.2 ++ [chunkHash.toHex]))
    ([], [])
  return {
    path := entry.path
    size := UInt64.ofNat data.length
    data := data
    chunkHashes := chunkHashes }

/-- Treat one entry of the file tree. -/
def recoverEntry (fileFilter : Option (List String))
    (result : RecoveryResult) (entry : FileEntry) : RecoveryResult :=
  if fileFilter.any fun filter => !filter.contains entry.path then result
  else
    match recoverFile blake3 st entry with
    | .ok file =>
        { result with
          recoveredFiles := result.recoveredFiles ++ [file]
          totalBytes := result.totalBytes + file.size }
    | .error e =>
        { result with
          failedFiles := result.failedFiles ++
            [{ path := entry.path, reason := e.message }] }

def recover (request : RecoveryRequest) :
    Except RecoveryError RecoveryResult :=
  match SnapshotStore.readSnapshot json catalog request.snapshotId with
  | .error _ => .error (.snapshotNotFound request.snapshotId)
  | .ok snapshot =>
      if snapshot.status = .corrupt then
        .error (.snapshotCorrupted request.snapshotId)
      else if snapshot.status ≠ .sealed then
        .error (.notSealed snapshot.status)
      else
        .ok (snapshot.fileTree.entries.foldl
          (recoverEntry blake3 st request.fileFilter)
          { snapshotId := request.snapshotId
            versionId := snapshot.versionId
            recoveredFiles := []
            failedFiles := []
            totalBytes := 0 })

end Operations

section Specs

variable {blake3 : Bytes → ChunkHash} {json : Json}
variable {st : Store} {catalog : Catalog}

/-- The second check of the hash never fails. -/
theorem recoverChunk_isOk_iff (h : ChunkHash) :
    (recoverChunk blake3 st h).isOk ↔
      ∃ data, ChunkStore.readChunk blake3 st h = .ok data := by
  unfold recoverChunk
  cases hread : ChunkStore.readChunk blake3 st h with
  | error e =>
      simp [Except.isOk, Except.toBool]
  | ok data =>
      obtain ⟨-, -, -, hhash⟩ := ChunkStore.readChunk_eq_ok_iff.mp hread
      simp [hhash, Except.isOk, Except.toBool]

/-- A file is recovered if all its chunks can be read. -/
theorem recoverFile_isOk_iff (entry : FileEntry) :
    (recoverFile blake3 st entry).isOk ↔
      ∀ h ∈ entry.chunkHashes,
        ∃ data, ChunkStore.readChunk blake3 st h = .ok data := by
  have hloop : ∀ (hashes : List ChunkHash) (acc : Bytes × List String),
      (hashes.foldlM (fun (acc : Bytes × List String) h => do
        let chunk ← recoverChunk blake3 st h
        return (acc.1 ++ chunk, acc.2 ++ [h.toHex])) acc).isOk ↔
      ∀ h ∈ hashes, ∃ data, ChunkStore.readChunk blake3 st h = .ok data := by
    intro hashes
    induction hashes with
    | nil =>
        simp [pure, Except.pure, Except.isOk, Except.toBool]
    | cons h hashes ih =>
        intro acc
        rw [List.foldlM_cons, List.forall_mem_cons,
          ← recoverChunk_isOk_iff h]
        cases recoverChunk blake3 st h with
        | error e =>
            simp [bind, Except.bind, Except.isOk, Except.toBool]
        | ok chunk =>
            simpa [bind, Except.bind, pure, Except.pure, Except.isOk,
              Except.toBool] using ih _
  rw [← hloop entry.chunkHashes ([], []), recoverFile]
  cases List.foldlM (m := Except RecoveryError) _ _ _ with
  | error e =>
      simp [bind, Except.bind, Except.isOk, Except.toBool]
  | ok acc =>
      simp [bind, Except.bind, pure, Except.pure, Except.isOk, Except.toBool]

/-- Without a filter no file fails exactly if all of them are recovered. -/
theorem failedFiles_foldl_recoverEntry (entries : List FileEntry) :
    ∀ result : RecoveryResult,
      (entries.foldl (recoverEntry blake3 st none) result).failedFiles = [] ↔
        result.failedFiles = [] ∧
          ∀ entry ∈ entries, (recoverFile blake3 st entry).isOk := by
  induction entries with
  | nil =>
      simp
  | cons entry entries ih =>
      intro result
      rw [List.foldl_cons, ih, List.forall_mem_cons]
      cases hfile : recoverFile blake3 st entry with
      | ok file =>
          simp [recoverEntry, hfile, Except.isOk, Except.toBool]
      | error e =>
          simp [recoverEntry, hfile, Except.isOk, Except.toBool]

end Specs

section Commit

variable {ext : Externals} {layout : BadouDataLayout} {s : ServerState}
variable {draws : RequestDraws} {request : Request SnapshotCommitRequest}
variable {args : Server.CommitArgs} {response : SnapshotCommitResponse}

/-- A recovery of the whole snapshot reports no failed file. -/
def RecoversAll (ext : Externals) (repo : OpenRepo) (snapshotId : Uuid) : Prop :=
  ∃ result, recover ext.blake3 ext.json repo.store repo.catalog
      { snapshotId := snapshotId, fileFilter := none } = .ok result ∧
    result.failedFiles = []

/-- The hashes a request lists. -/
def listedHashes (args : Server.CommitArgs) : List ChunkHash :=
  args.chunkHashes.map Convert.parseHashOrZero

/-- The hashes the manifest of a request refers to. -/
def referencedHashes (args : Server.CommitArgs) : List ChunkHash :=
  args.manifest.chunkRefs.map fun r => Convert.parseHashOrZero r.chunkHash

/-- The chunk can be read, and from a file that stays as it is when the listed
chunks are written. -/
def KeptReadable
    (blake3 : Bytes → ChunkHash) (layout : BadouDataLayout)
    (repoId : RepositoryId) (st : Store) (listed : List ChunkHash)
    (h : ChunkHash) : Prop :=
  ∃ e data, st.index.lookup h.toHex = some e ∧
    st.files.lookup e.path = some data ∧ blake3 data = h ∧
    ∀ h' ∈ listed, ¬ ChunkStore.chunkExists st h' →
      e.path ≠ layout.bucketPath repoId h'

/-- The snapshot a request is committed with. -/
def sealedSnapshot (ext : Externals) (draws : RequestDraws)
    (args : Server.CommitArgs) : Snapshot :=
  let manifest := Server.buildManifest ext draws args.manifest
  CommitBackup.committedSnapshot ext.blake3 ext.json draws.commit manifest
    (Server.buildSnapshot ext draws args.snapshotMeta manifest) .sealed

/-- Of the written chunks that can all be read back, together with the others:
which can be read. -/
theorem exists_readChunk_writeChunks_iff
    {repoId : RepositoryId} {st : Store} {listed : List ChunkHash}
    (hverified : ∀ h ∈ listed, ChunkStore.readChunk ext.blake3
      (stateAfter (ChunkStore.writeChunks layout repoId
        (listed.map fun h => (h, Server.load ext st h))) st) h =
          .ok (Server.load ext st h))
    (h : ChunkHash) :
    (∃ data, ChunkStore.readChunk ext.blake3
      (stateAfter (ChunkStore.writeChunks layout repoId
        (listed.map fun h => (h, Server.load ext st h))) st) h = .ok data) ↔
      h ∈ listed ∨ KeptReadable ext.blake3 layout repoId st listed h := by
  by_cases hmem : h ∈ listed
  · exact iff_of_true ⟨_, hverified h hmem⟩ (Or.inl hmem)
  rw [or_iff_right hmem]
  have hentry : (stateAfter (ChunkStore.writeChunks layout repoId
      (listed.map fun h => (h, Server.load ext st h))) st).index.lookup
        h.toHex = st.index.lookup h.toHex := by
    apply ChunkStore.lookup_writeChunks_of_not_mem
    intro c hc heq
    obtain ⟨h', hh', rfl⟩ := List.mem_map.mp hc
    exact hmem (ChunkHash.toHex_injective heq ▸ hh')
  simp only [ChunkStore.readChunk_eq_ok_iff, hentry, KeptReadable]
  constructor
  · rintro ⟨data, e, he, hfile, hhash⟩
    have hkept : ∀ h' ∈ listed, ¬ ChunkStore.chunkExists st h' →
        e.path ≠ layout.bucketPath repoId h' := by
      intro h' hh' hnew hpath
      -- A new chunk is written without bytes, and read back under its hash.
      have hwritten := (ChunkStore.lookup_files_writeChunks_map
        (Server.load ext st) listed e.path st).1 h' hh' hnew hpath
      obtain ⟨_, -, -, hhash'⟩ :=
        ChunkStore.readChunk_eq_ok_iff.mp (hverified h' hh')
      rw [hfile, Option.some.injEq] at hwritten
      rw [hwritten, hhash'] at hhash
      exact hmem (hhash ▸ hh')
    rw [(ChunkStore.lookup_files_writeChunks_map _ _ _ _).2 hkept] at hfile
    exact ⟨e, data, he, hfile, hhash, hkept⟩
  · rintro ⟨e, data, he, hfile, hhash, hkept⟩
    refine ⟨data, e, he, ?_, hhash⟩
    rw [(ChunkStore.lookup_files_writeChunks_map _ _ _ _).2 hkept]
    exact hfile

/-- After an answered request its snapshot is read as it was sealed. -/
theorem readSnapshot_of_answer
    (hparse : Server.parseCommit ext request.inner = .ok args)
    (hanswer : outcome (Server.snapshotCommit ext layout draws request) s =
      .ok response)
    (hjson : ext.json.snapshotFromSlice
      (ext.json.snapshotToVec (sealedSnapshot ext draws args)) =
        .ok (sealedSnapshot ext draws args)) :
    SnapshotStore.readSnapshot ext.json
      (Server.repoState
        (stateAfter (Server.snapshotCommit ext layout draws request) s)
        args.repoId).catalog draws.commit.snapshotId =
      .ok (sealedSnapshot ext draws args) := by
  obtain ⟨⟨v, id, hout⟩, hrepo⟩ := Server.success_of_answer hparse hanswer
  obtain ⟨-, -, hpublishes⟩ := CommitBackup.publishes_of_success hout
  have hfile := hpublishes.snapshots
    (SnapshotStore.snapshotName draws.commit.snapshotId)
  rw [if_pos rfl] at hfile
  rw [hrepo]
  exact SnapshotStore.readSnapshot_of_lookup hfile hjson

/-- A request whose commit succeeds is answered if its snapshot can be read
back. -/
theorem exists_answer
    (hauth : request.auth = .ok ())
    (hparse : Server.parseCommit ext request.inner = .ok args)
    (hrepo : (s.repos.lookup args.repoId).isSome)
    (hsuccess : ∃ v id, outcome (Server.innerCommit ext layout s draws args)
      (Server.commitState s args.repoId) = .ok (.success v id))
    {snapshot : Snapshot} (hjson : ext.json.snapshotFromSlice
      (ext.json.snapshotToVec (sealedSnapshot ext draws args)) = .ok snapshot) :
    ∃ response, outcome (Server.snapshotCommit ext layout draws request) s =
      .ok response := by
  have hadmits := (CommitBackup.outcome_commitBackup.mp hsuccess).1
  obtain ⟨v, id, hout⟩ := hsuccess
  obtain ⟨rfl, rfl, hpublishes⟩ := CommitBackup.publishes_of_success hout
  have hfile := hpublishes.snapshots
    (SnapshotStore.snapshotName draws.commit.snapshotId)
  rw [if_pos rfl] at hfile
  have hversion : ∃ version, (stateAfter (Server.innerCommit ext layout s draws
      args) (Server.commitState s args.repoId)).versions.getVersion
        draws.commit.versionId = .ok version := by
    obtain ⟨⟨version, hlookup, -⟩, -⟩ := CommitBackup.registered_commitBackup hadmits
    refine ⟨version, ?_⟩
    unfold VersionOps.getVersion Server.innerCommit
    rw [hlookup]
  obtain ⟨version, hversion⟩ := hversion
  exact Server.answer_of_success hauth hparse hrepo
    (run_eq_ok_iff.mpr ⟨hout, rfl⟩) hversion
    (SnapshotStore.readSnapshot_of_lookup hfile hjson)

/-- A request that is answered is recovered if the chunks its manifest refers
to can be read afterwards. -/
theorem recoversAll_iff_readable
    (hparse : Server.parseCommit ext request.inner = .ok args)
    (hanswer : outcome (Server.snapshotCommit ext layout draws request) s =
      .ok response)
    (hjson : ext.json.snapshotFromSlice
      (ext.json.snapshotToVec (sealedSnapshot ext draws args)) =
        .ok (sealedSnapshot ext draws args)) :
    RecoversAll ext
        (Server.repoState
          (stateAfter (Server.snapshotCommit ext layout draws request) s)
          args.repoId)
        draws.commit.snapshotId ↔
      ∀ h ∈ referencedHashes args, ∃ data, ChunkStore.readChunk ext.blake3
        (Server.repoState
          (stateAfter (Server.snapshotCommit ext layout draws request) s)
          args.repoId).store h = .ok data := by
  have hread := readSnapshot_of_answer hparse hanswer hjson
  have hsealed : (sealedSnapshot ext draws args).status = .sealed := rfl
  have hentries : (sealedSnapshot ext draws args).fileTree.entries =
      (Server.buildManifest ext draws args.manifest).chunkRefs.map fun r =>
        { path := args.snapshotMeta.fileTreeRoot ++ "/chunk_" ++
            toString r.offset.toNat
          size := r.size
          isDirectory := false
          chunkHashes := [r.chunkHash] } :=
    rfl
  simp only [RecoversAll, recover, hread, hsealed, reduceCtorEq, if_false,
    ne_eq, not_true_eq_false, Except.ok.injEq, exists_eq_left',
    failedFiles_foldl_recoverEntry, true_and, hentries, List.forall_mem_map,
    recoverFile_isOk_iff, List.mem_singleton, forall_eq, referencedHashes,
    Server.buildManifest]

/-- A commit request that is answered can be recovered without a failed file
exactly if every chunk its manifest refers to is among the listed ones, or
could be read before from a file that no listed chunk is written to. -/
theorem recoversAll_iff
    (hparse : Server.parseCommit ext request.inner = .ok args)
    (hanswer : outcome (Server.snapshotCommit ext layout draws request) s =
      .ok response)
    (hjson : ext.json.snapshotFromSlice
      (ext.json.snapshotToVec (sealedSnapshot ext draws args)) =
        .ok (sealedSnapshot ext draws args)) :
    RecoversAll ext
        (Server.repoState
          (stateAfter (Server.snapshotCommit ext layout draws request) s)
          args.repoId)
        draws.commit.snapshotId ↔
      ∀ h ∈ referencedHashes args, h ∈ listedHashes args ∨
        KeptReadable ext.blake3 layout args.repoId
          (Server.repoState s args.repoId).store (listedHashes args) h := by
  rw [recoversAll_iff_readable hparse hanswer hjson]
  obtain ⟨hsuccess, hrepo⟩ := Server.success_of_answer hparse hanswer
  obtain ⟨hadmits, hverified⟩ := CommitBackup.outcome_commitBackup.mp hsuccess
  have hstore : (Server.repoState
      (stateAfter (Server.snapshotCommit ext layout draws request) s)
      args.repoId).store =
      stateAfter (ChunkStore.writeChunks layout args.repoId
        (Server.commitChunks ext s args)) (Server.repoState s args.repoId).store := by
    rw [hrepo]
    exact CommitBackup.store_commitBackup_of_admits hadmits
  have hchunks : Server.commitChunks ext s args =
      (listedHashes args).map fun h =>
        (h, Server.load ext (Server.repoState s args.repoId).store h) :=
    Server.loadChunks_eq _ _
  rw [CommitBackup.verifyChunks_eq_ok_true_iff, hchunks,
    List.forall_mem_map] at hverified
  rw [hstore, hchunks]
  refine forall₂_congr fun h _ => ?_
  exact exists_readChunk_writeChunks_iff hverified h

end Commit

section Example

theorem length_abcDigest : List.length [
    0x64, 0x37, 0xb3, 0xac, 0x38, 0x46, 0x51, 0x33,
    0xff, 0xb6, 0x3b, 0x75, 0x27, 0x3a, 0x8d, 0xb5,
    0x48, 0xc5, 0x58, 0x46, 0x5d, 0x79, 0xdb, 0x03,
    0xfd, 0x35, 0x9c, 0x6c, 0xd5, 0xbd, 0x9d, (0x85 : UInt8)] = 32 :=
  rfl

/-- The BLAKE3 hash of the bytes of `abc`. -/
def abcHash : ChunkHash :=
  ⟨⟨[
    0x64, 0x37, 0xb3, 0xac, 0x38, 0x46, 0x51, 0x33,
    0xff, 0xb6, 0x3b, 0x75, 0x27, 0x3a, 0x8d, 0xb5,
    0x48, 0xc5, 0x58, 0x46, 0x5d, 0x79, 0xdb, 0x03,
    0xfd, 0x35, 0x9c, 0x6c, 0xd5, 0xbd, 0x9d, 0x85], length_abcDigest⟩⟩

/-- The chunk of `abc` is known by its hash. -/
def abcBlake3 (data : Bytes) : ChunkHash :=
  if data = [0x61, 0x62, 0x63] then abcHash else .ofEmpty

/-- A commit to the repository 1: the manifest refers to a chunk that is
neither listed nor stored. -/
def danglingArgs : Server.CommitArgs where
  repoId := ⟨1#128⟩
  parentVersionId := none
  snapshotMeta :=
    { snapshotId := "", versionId := "", repoId := "", status := 0
      sourceMachine := "host", backupPolicy := [], fileTreeRoot := "/home"
      encryptionInfo := [], compressionInfo := []
      totalSize := 3, storedSize := 3, fileCount := 1, chunkCount := 1
      createdAt := none }
  manifest :=
    { manifestId := "", fileTree := []
      chunkRefs := [{ chunkHash := abcHash.toHex, offset := 0, size := 3 }] }
  chunkHashes := []

def danglingRequest : Request SnapshotCommitRequest where
  auth := .ok ()
  inner :=
    { repoId := "00000000-0000-0000-0000-000000000001"
      parentVersionId := ""
      snapshotMeta := some danglingArgs.snapshotMeta
      manifest := some danglingArgs.manifest
      chunkHashes := [] }

/-- The BLAKE3 hash of the frame of the manifest with that one reference. -/
def danglingManifestHash : ChunkHash :=
  ⟨⟨[
    0xcd, 0x95, 0x99, 0xc3, 0x28, 0xdb, 0x2c, 0xcf,
    0xd3, 0x5d, 0x1e, 0x82, 0x6b, 0x11, 0x82, 0xaf,
    0x7a, 0xd6, 0xa8, 0x17, 0x89, 0x9d, 0xfd, 0x73,
    0xb9, 0x90, 0x13, 0x9e, 0xda, 0x69, 0x88, 0x5a], rfl⟩⟩

/-- The snapshot as it is sealed. -/
def danglingSnapshot : Snapshot where
  snapshotId := BitVec.ofNat 128 7
  versionId := ⟨BitVec.ofNat 128 4⟩
  sourceMachine := { hostname := "host", osType := "", agentVersion := "" }
  backupPolicy := { paths := [], excludes := [], includes := [] }
  fileTree :=
    { root := "/home"
      entries := [
        { path := "/home/chunk_0", size := 3, isDirectory := false
          chunkHashes := [abcHash] }] }
  chunkMapping := []
  encryptionInfo := { enabled := false, algorithm := "", keyRef := none }
  compressionInfo := { algorithm := "", level := 0 }
  verifyInfo :=
    { verified := true, verifiedAt := some 0
      checksum := some danglingManifestHash.toHex }
  status := .sealed
  createdAt := 0
  totalSize := 3
  storedSize := 3
  fileCount := 1
  chunkCount := 1

/-- JSON with a reader that knows the text of that snapshot. -/
def danglingJson : Json :=
  Json.withReaders
    (fun _ => .error "EOF while parsing a value at line 1 column 0")
    (fun data =>
      if data = Hex.utf8 (Json.snapshot danglingSnapshot) then
        .ok danglingSnapshot
      else .error "EOF while parsing a value at line 1 column 0")

def danglingExternals : Externals :=
  { Server.externalsWith danglingJson with
    blake3 := fun _ => danglingManifestHash }

theorem parseCommit_dangling :
    Server.parseCommit danglingExternals danglingRequest.inner =
      .ok danglingArgs :=
  rfl

theorem sealedSnapshot_dangling :
    sealedSnapshot danglingExternals (Server.drawsFrom 2) danglingArgs =
      danglingSnapshot := by
  have hhash : Convert.parseHashOrZero abcHash.toHex = abcHash := by
    simp [Convert.parseHashOrZero]
  simp only [sealedSnapshot, CommitBackup.committedSnapshot,
    Server.buildSnapshot, Server.buildManifest, danglingArgs, List.map_cons,
    List.map_nil, hhash]
  rfl

theorem readsBack_dangling :
    danglingExternals.json.snapshotFromSlice
      (danglingExternals.json.snapshotToVec
        (sealedSnapshot danglingExternals (Server.drawsFrom 2) danglingArgs)) =
      .ok (sealedSnapshot danglingExternals (Server.drawsFrom 2)
        danglingArgs) := by
  have hjson : danglingExternals.json = danglingJson := rfl
  rw [sealedSnapshot_dangling, hjson, danglingJson, Json.withReaders_snapshotFromSlice,
    Json.withReaders_snapshotToVec, if_pos rfl]

/-- The commit succeeds in a new repository. -/
theorem answered_dangling :
    ∃ response, outcome (Server.snapshotCommit danglingExternals ⟨"/data"⟩
      (Server.drawsFrom 2) danglingRequest) (Server.new [⟨1#128⟩]) =
        .ok response :=
  exists_answer rfl parseCommit_dangling rfl
    (CommitBackup.outcome_commitBackup.mpr ⟨by decide, rfl⟩) readsBack_dangling

theorem recoversAll_dangling_iff :
    RecoversAll danglingExternals
        (Server.repoState
          (stateAfter (Server.snapshotCommit danglingExternals ⟨"/data"⟩
            (Server.drawsFrom 2) danglingRequest) (Server.new [⟨1#128⟩]))
          danglingArgs.repoId)
        (Server.drawsFrom 2).commit.snapshotId ↔
      ∀ h ∈ referencedHashes danglingArgs, h ∈ listedHashes danglingArgs ∨
        KeptReadable danglingExternals.blake3 ⟨"/data"⟩ danglingArgs.repoId
          (Server.repoState (Server.new [⟨1#128⟩]) danglingArgs.repoId).store
          (listedHashes danglingArgs) h := by
  obtain ⟨response, hanswer⟩ := answered_dangling
  exact recoversAll_iff parseCommit_dangling hanswer readsBack_dangling

/-- The commit is answered with success, and recovering it fails. -/
theorem dangling_not_recovered :
    (∃ response, outcome (Server.snapshotCommit danglingExternals ⟨"/data"⟩
      (Server.drawsFrom 2) danglingRequest) (Server.new [⟨1#128⟩]) =
        .ok response) ∧
    ¬ RecoversAll danglingExternals
      (Server.repoState
        (stateAfter (Server.snapshotCommit danglingExternals ⟨"/data"⟩
          (Server.drawsFrom 2) danglingRequest) (Server.new [⟨1#128⟩]))
        danglingArgs.repoId)
      (Server.drawsFrom 2).commit.snapshotId := by
  refine ⟨answered_dangling, ?_⟩
  obtain ⟨response, hanswer⟩ := answered_dangling
  intro hrecovers
  have hreadable := (recoversAll_iff_readable parseCommit_dangling hanswer
    readsBack_dangling).mp hrecovers
  have hmem : abcHash ∈ referencedHashes danglingArgs := by
    simp [referencedHashes, danglingArgs, Convert.parseHashOrZero]
  obtain ⟨data, hread⟩ := hreadable abcHash hmem
  have hstore : (Server.repoState
      (stateAfter (Server.snapshotCommit danglingExternals ⟨"/data"⟩
        (Server.drawsFrom 2) danglingRequest) (Server.new [⟨1#128⟩]))
      danglingArgs.repoId).store = .empty := by
    rw [Server.store_snapshotCommit]
    rfl
  rw [hstore, ChunkStore.readChunk_eq_ok_iff] at hread
  obtain ⟨e, he, -⟩ := hread
  simp [Store.empty] at he

end Example

end RecoveryEngine

end Badou
end HyperBackup
