import HyperBackup.Badou.ManifestRead
import HyperBackup.Badou.Recovery

/-!
# Reading snapshots from the server

The handlers that answer with what has been committed: one snapshot with its
manifest, the snapshots of a repository, and the files of a version.

A manifest is stored under its own identifier.  The handler for a single
snapshot looks for it under the identifier of the snapshot, and takes an empty
manifest when there is none.  The main result says what this means for a
commit that has just been answered.
-/

namespace HyperBackup
namespace Badou

open Lib Lib.Program

/-- The versions of a repository in order of creation. -/
def VersionOps.listVersions (ops : VersionOps) (repoId : RepositoryId) :
    List Version :=
  ((ops.repoVersions.lookup repoId).getD []).filterMap fun id =>
    ops.versions.lookup id

def recoveryErrorToStatus (e : RecoveryError) : Status :=
  match e with
  | .snapshotNotFound _ => toStatus .snapshotNotFound e.message
  | .snapshotCorrupted _ => toStatus .corruptedData e.message
  | .notSealed _ => toStatus .stateConflict e.message
  | .chunkNotFound _ => toStatus .chunkNotFound e.message
  | .hashMismatch _ _ => toStatus .hashMismatch e.message

structure SnapshotGetRequest where
  repoId : String
  snapshotId : String
deriving DecidableEq

/-- A manifest as the server sends it. -/
structure PbManifestData extends ManifestData where
  snapshotId : String
  createdAt : Option DateTime
deriving DecidableEq

structure SnapshotGetResponse where
  snapshotMeta : Option SnapshotMeta
  manifest : Option PbManifestData
deriving DecidableEq

structure SnapshotListRequest where
  repoId : String
  limit : Option UInt32
  cursor : Option String
deriving DecidableEq

structure SnapshotListResponse where
  snapshots : List SnapshotMeta
  nextCursor : Option String
deriving DecidableEq

structure SnapshotDeleteRequest where
  repoId : String
  snapshotId : String
deriving DecidableEq

structure RecoveryOpenRequest where
  repoId : String
  versionId : String
  filePath : Option String
deriving DecidableEq

structure RecoveryChunk where
  chunkHash : String
  data : Bytes
  size : UInt64
  filePath : String
  offset : UInt64
deriving DecidableEq

/-- What stands in for a manifest that cannot be read. -/
structure ManifestDraws where
  manifestId : Uuid
  now : DateTime
deriving DecidableEq

def Convert.manifestToPbData (m : Manifest) : PbManifestData where
  manifestId := uuidText m.manifestId
  snapshotId := uuidText m.snapshotId
  fileTree := m.fileTree
  chunkRefs := m.chunkRefs.map fun r =>
    { chunkHash := r.chunkHash.toHex
      offset := r.offset
      size := r.size }
  createdAt := some m.createdAt

def Convert.makeRecoveryChunk (hashHex : String) (data : Bytes)
    (filePath : String) (offset : UInt64) : RecoveryChunk where
  chunkHash := hashHex
  data := data
  size := UInt64.ofNat data.length
  filePath := filePath
  offset := offset

namespace Server

section Handlers

variable (ext : Externals)

/-- The manifest with an identifier, or an empty one for the snapshot. -/
def manifestOrEmpty (draws : ManifestDraws) (catalog : Catalog)
    (manifestId snapshotId : Uuid) : Manifest :=
  match ManifestStore.readManifest ext.json catalog manifestId with
  | .ok manifest => manifest
  | .error _ =>
      { manifestId := draws.manifestId
        snapshotId := snapshotId
        fileTree := []
        chunkRefs := []
        createdAt := draws.now }

def snapshotGet (draws : ManifestDraws) (request : Request SnapshotGetRequest) :
    ServerM SnapshotGetResponse := do
  let _ ← ofResult id request.auth
  let repoId ← ofResult (toStatus .repoNotFound)
    (Convert.parseRepoId ext request.inner.repoId)
  let snapshotId ← ofResult (toStatus .snapshotNotFound)
    (Convert.parseUuid ext request.inner.snapshotId)
  let repo ← openRepo repoId
  let snapshot ← ofResult snapshotErrorToStatus
    (SnapshotStore.readSnapshot ext.json repo.catalog snapshotId)
  let manifest := manifestOrEmpty ext draws repo.catalog snapshot.snapshotId
    snapshotId
  return {
    snapshotMeta := some
      (Convert.snapshotToPbMeta ext snapshot request.inner.repoId)
    manifest := some (Convert.manifestToPbData manifest) }

/-- The snapshots of some versions; one that cannot be read is left out. -/
def readSnapshots (catalog : Catalog) (versions : List Version) :
    List Snapshot :=
  versions.filterMap fun v =>
    (SnapshotStore.readSnapshot ext.json catalog v.snapshotId).toOption

def snapshotList (request : Request SnapshotListRequest) :
    ServerM SnapshotListResponse := do
  let _ ← ofResult id request.auth
  let repoId ← ofResult (toStatus .repoNotFound)
    (Convert.parseRepoId ext request.inner.repoId)
  let versions := (← get).versionOps.listVersions repoId
  let limit := (request.inner.limit.getD 100).toNat
  let repo ← openRepo repoId
  return {
    snapshots := (readSnapshots ext repo.catalog (versions.take limit)).map
      fun snap => Convert.snapshotToPbMeta ext snap request.inner.repoId
    nextCursor := none }

/-- A sealed snapshot is refused; for any other the answer is that it is deleted. -/
def snapshotDelete (request : Request SnapshotDeleteRequest) : ServerM Bool := do
  let _ ← ofResult id request.auth
  let repoId ← ofResult (toStatus .repoNotFound)
    (Convert.parseRepoId ext request.inner.repoId)
  let snapshotId ← ofResult (toStatus .snapshotNotFound)
    (Convert.parseUuid ext request.inner.snapshotId)
  let repo ← openRepo repoId
  let snapshot ← ofResult snapshotErrorToStatus
    (SnapshotStore.readSnapshot ext.json repo.catalog snapshotId)
  if snapshot.status = .sealed then
    throw (toStatus .immutableConflict "cannot delete sealed snapshot (immutable)")
  return true

/-- The recovery that is run for a request. -/
def recoveryResult (request : Request RecoveryOpenRequest) :
    ServerM RecoveryResult := do
  let _ ← ofResult id request.auth
  let repoId ← ofResult (toStatus .repoNotFound)
    (Convert.parseRepoId ext request.inner.repoId)
  let versionId ← ofResult (toStatus .versionNotFound)
    (Convert.parseVersionId ext request.inner.versionId)
  let version ← ofResult versionErrorToStatus
    ((← get).versionOps.getVersion versionId)
  let repo ← openRepo repoId
  ofResult recoveryErrorToStatus
    (RecoveryEngine.recover ext.blake3 ext.json repo.store repo.catalog
      { snapshotId := version.snapshotId
        fileFilter := request.inner.filePath.map fun path => [path] })

/-- A recovery answers with one chunk for each recovered file. -/
def recoveryOpen (request : Request RecoveryOpenRequest) :
    ServerM (List RecoveryChunk) := do
  let result ← recoveryResult ext request
  return result.recoveredFiles.map fun file =>
    Convert.makeRecoveryChunk (file.chunkHashes.head?.getD "") file.data
      file.path 0

end Handlers

section Specs

variable {ext : Externals} {layout : BadouDataLayout} {s : ServerState}
variable {repoId : RepositoryId}

/-- What is found in a known repository is answered. -/
theorem outcome_snapshotGet
    {request : Request SnapshotGetRequest} {id : Uuid} {snapshot : Snapshot}
    (draws : ManifestDraws) (hauth : request.auth = .ok ())
    (hrepoId : Convert.parseRepoId ext request.inner.repoId = .ok repoId)
    (hid : Convert.parseUuid ext request.inner.snapshotId = .ok id)
    (hrepo : (s.repos.lookup repoId).isSome)
    (hsnapshot : SnapshotStore.readSnapshot ext.json
      (repoState s repoId).catalog id = .ok snapshot) :
    outcome (snapshotGet ext draws request) s = .ok
      { snapshotMeta := some
          (Convert.snapshotToPbMeta ext snapshot request.inner.repoId)
        manifest := some (Convert.manifestToPbData
          (manifestOrEmpty ext draws (repoState s repoId).catalog
            snapshot.snapshotId id)) } := by
  unfold snapshotGet
  rw [outcome_bind_of_run (run_ofResult_eq_ok.mpr ⟨hauth, rfl⟩),
    outcome_bind_of_run (run_ofResult_eq_ok.mpr ⟨hrepoId, rfl⟩),
    outcome_bind_of_run (run_ofResult_eq_ok.mpr ⟨hid, rfl⟩),
    outcome_bind_of_run (run_openRepo hrepo),
    outcome_bind_of_run (run_ofResult_eq_ok.mpr ⟨hsnapshot, rfl⟩)]
  rfl

/-- The repository, the manifest and the metadata of a parsed request. -/
theorem parseCommit_eq_ok {req : SnapshotCommitRequest} {args : CommitArgs}
    (h : parseCommit ext req = .ok args) :
    Convert.parseRepoId ext req.repoId = .ok args.repoId ∧
      req.manifest = some args.manifest ∧
      req.snapshotMeta = some args.snapshotMeta := by
  unfold parseCommit at h
  cases hrepo : Convert.parseRepoId ext req.repoId with
  | error e =>
      rw [hrepo] at h
      cases h
  | ok repoId =>
      rw [hrepo] at h
      cases hparent : parseParent ext req.parentVersionId with
      | error e =>
          rw [hparent] at h
          cases h
      | ok parent =>
          rw [hparent] at h
          cases hmeta : req.snapshotMeta with
          | none =>
              rw [hmeta] at h
              cases h
          | some snapshotMeta =>
              rw [hmeta] at h
              cases hmanifest : req.manifest with
              | none =>
                  rw [hmanifest] at h
                  cases h
              | some manifest =>
                  rw [hmanifest] at h
                  cases h
                  exact ⟨rfl, rfl, rfl⟩

/-- What an answered commit is answered with. -/
theorem commitResponse_of_answer
    {draws : RequestDraws} {request : Request SnapshotCommitRequest}
    {args : CommitArgs} {response : SnapshotCommitResponse}
    (hparse : parseCommit ext request.inner = .ok args)
    (h : outcome (snapshotCommit ext layout draws request) s = .ok response) :
    commitResponse ext request.inner args.repoId
      (stateAfter (snapshotCommit ext layout draws request) s)
      (.success draws.commit.versionId draws.commit.snapshotId) =
        .ok response := by
  obtain ⟨-, result, hrun, hresponse⟩ := run_of_answer hparse h
  cases result with
  | failure v reason =>
      cases hresponse
  | success v id =>
      obtain ⟨rfl, rfl, -⟩ :=
        CommitBackup.publishes_of_success (innerCommit_of_run hrun)
      exact hresponse

end Specs

section Stored

variable {ext : Externals} {layout : BadouDataLayout} {s : ServerState}
variable {draws : RequestDraws}
variable {request : Request SnapshotCommitRequest} {args : CommitArgs}
variable {response : SnapshotCommitResponse}

/-- The text of a UUID is read as that UUID. -/
def ReadsUuids (ext : Externals) : Prop :=
  ∀ u, ext.parseUuid (uuidText u) = .ok u

/-- The version identifier a snapshot is stored with. -/
def storedVersionId (ext : Externals) (draws : RequestDraws)
    (args : CommitArgs) : VersionId :=
  match Convert.parseVersionId ext args.snapshotMeta.versionId with
  | .ok v => v
  | .error _ => draws.versionId

/-- A request for one snapshot. -/
def getOf (repoId snapshotId : String) : Request SnapshotGetRequest where
  auth := .ok ()
  inner := { repoId := repoId, snapshotId := snapshotId }

/-- The snapshot that a commit was answered with is fetched with the file tree
and the chunk references of the commit. -/
def ReturnsStored (ext : Externals) (getDraws : ManifestDraws)
    (req : SnapshotCommitRequest) (response : SnapshotCommitResponse)
    (s : ServerState) : Prop :=
  ∃ committed snapshotMeta answer fetched,
    req.manifest = some committed ∧ response.snapshot = some snapshotMeta ∧
    outcome (snapshotGet ext getDraws
      (getOf req.repoId snapshotMeta.snapshotId)) s = .ok answer ∧
    answer.manifest = some fetched ∧
    fetched.fileTree = committed.fileTree ∧
    fetched.chunkRefs = committed.chunkRefs

/-- An answered commit is answered with its sealed snapshot. -/
theorem snapshot_of_answer
    (hparse : parseCommit ext request.inner = .ok args)
    (hanswer : outcome (snapshotCommit ext layout draws request) s = .ok response)
    (hjson : ext.json.snapshotFromSlice (ext.json.snapshotToVec
      (RecoveryEngine.sealedSnapshot ext draws args)) =
        .ok (RecoveryEngine.sealedSnapshot ext draws args)) :
    response.snapshot = some (Convert.snapshotToPbMeta ext
      (RecoveryEngine.sealedSnapshot ext draws args) request.inner.repoId) := by
  have hresponse := commitResponse_of_answer hparse hanswer
  have hread := RecoveryEngine.readSnapshot_of_answer hparse hanswer hjson
  rw [commitResponse, hread] at hresponse
  cases hversion : (stateAfter (snapshotCommit ext layout draws request)
      s).versionOps.getVersion draws.commit.versionId with
  | error e =>
      rw [hversion] at hresponse
      cases hresponse
  | ok version =>
      rw [hversion] at hresponse
      cases hresponse
      rfl

/-- The repository of an answered commit is known afterwards. -/
theorem isSome_lookup_of_answer
    (hparse : parseCommit ext request.inner = .ok args)
    (hanswer : outcome (snapshotCommit ext layout draws request) s =
      .ok response) :
    ((stateAfter (snapshotCommit ext layout draws request) s).repos.lookup
      args.repoId).isSome := by
  obtain ⟨-, result, hrun, -⟩ := run_of_answer hparse hanswer
  obtain ⟨-, hstate⟩ := run_eq_ok_iff.mp hrun
  rw [← hstate, runCommit, stateAfter_zoom, setCommitState, setRepo,
    HashMap.lookup_insert_of, if_pos rfl]
  rfl

/-- Under the identifier of its snapshot no manifest of a commit is found. -/
theorem readManifest_of_answer
    (hparse : parseCommit ext request.inner = .ok args)
    (hanswer : outcome (snapshotCommit ext layout draws request) s = .ok response)
    (hne : draws.commit.snapshotId ≠ draws.manifestId)
    (hfresh : (repoState s args.repoId).catalog.manifests.lookup
      (ManifestStore.manifestName draws.commit.snapshotId) = none) :
    ManifestStore.readManifest ext.json
      (repoState (stateAfter (snapshotCommit ext layout draws request) s)
        args.repoId).catalog draws.commit.snapshotId =
      .error (.notFound draws.commit.snapshotId) := by
  obtain ⟨⟨v, id, hout⟩, hrepo⟩ := success_of_answer hparse hanswer
  obtain ⟨-, -, hpublishes⟩ := CommitBackup.publishes_of_success hout
  have hother : ManifestStore.manifestName draws.commit.snapshotId ≠
      ManifestStore.manifestName
        (buildManifest ext draws args.manifest).manifestId :=
    fun heq => hne (ManifestStore.manifestName_injective heq)
  have hnone : (stateAfter (innerCommit ext layout s draws args)
      (commitState s args.repoId)).repo.catalog.manifests.lookup
        (ManifestStore.manifestName draws.commit.snapshotId) = none :=
    ((hpublishes.manifests _).trans (if_neg hother)).trans hfresh
  rw [hrepo, ManifestStore.readManifest, hnone]

/-- What is fetched after an answered commit: its snapshot, and an empty
manifest. -/
theorem outcome_snapshotGet_of_answer (getDraws : ManifestDraws)
    (hparse : parseCommit ext request.inner = .ok args)
    (hanswer : outcome (snapshotCommit ext layout draws request) s = .ok response)
    (hjson : ext.json.snapshotFromSlice (ext.json.snapshotToVec
      (RecoveryEngine.sealedSnapshot ext draws args)) =
        .ok (RecoveryEngine.sealedSnapshot ext draws args))
    (huuid : ReadsUuids ext) (hne : draws.commit.snapshotId ≠ draws.manifestId)
    (hfresh : (repoState s args.repoId).catalog.manifests.lookup
      (ManifestStore.manifestName draws.commit.snapshotId) = none) :
    ∃ answer fetched, outcome (snapshotGet ext getDraws
        (getOf request.inner.repoId (uuidText draws.commit.snapshotId)))
          (stateAfter (snapshotCommit ext layout draws request) s) = .ok answer ∧
      answer.manifest = some fetched ∧ fetched.fileTree = [] ∧
      fetched.chunkRefs = [] := by
  have hid : Convert.parseUuid ext (uuidText draws.commit.snapshotId) =
      .ok draws.commit.snapshotId := by
    rw [Convert.parseUuid, huuid]
    rfl
  have hget := @outcome_snapshotGet ext _ args.repoId
    (getOf request.inner.repoId (uuidText draws.commit.snapshotId)) _ _
    getDraws rfl (parseCommit_eq_ok hparse).1 hid
    (isSome_lookup_of_answer hparse hanswer)
    (RecoveryEngine.readSnapshot_of_answer hparse hanswer hjson)
  have hid' : (RecoveryEngine.sealedSnapshot ext draws args).snapshotId =
      draws.commit.snapshotId :=
    rfl
  refine ⟨_, _, hget, rfl, ?_, ?_⟩
  · rw [hid', manifestOrEmpty, readManifest_of_answer hparse hanswer hne hfresh]
    rfl
  · rw [hid', manifestOrEmpty, readManifest_of_answer hparse hanswer hne hfresh]
    rfl

/-- An answered commit is fetched as it was stored exactly if its manifest has
neither files nor chunk references. -/
theorem returnsStored_iff {getDraws : ManifestDraws}
    (hparse : parseCommit ext request.inner = .ok args)
    (hanswer : outcome (snapshotCommit ext layout draws request) s = .ok response)
    (hjson : ext.json.snapshotFromSlice (ext.json.snapshotToVec
      (RecoveryEngine.sealedSnapshot ext draws args)) =
        .ok (RecoveryEngine.sealedSnapshot ext draws args))
    (huuid : ReadsUuids ext) (hne : draws.commit.snapshotId ≠ draws.manifestId)
    (hfresh : (repoState s args.repoId).catalog.manifests.lookup
      (ManifestStore.manifestName draws.commit.snapshotId) = none) :
    ReturnsStored ext getDraws request.inner response
        (stateAfter (snapshotCommit ext layout draws request) s) ↔
      args.manifest.fileTree = [] ∧ args.manifest.chunkRefs = [] := by
  have hsnapshot := snapshot_of_answer hparse hanswer hjson
  obtain ⟨answer, fetched, hget, hfetched, htree, hrefs⟩ :=
    outcome_snapshotGet_of_answer getDraws hparse hanswer hjson huuid hne hfresh
  obtain ⟨-, hmanifest, -⟩ := parseCommit_eq_ok hparse
  constructor
  · rintro ⟨committed, snapshotMeta, answer', fetched', hcommitted, hmeta, hget',
      hfetched', htree', hrefs'⟩
    obtain rfl := Option.some.inj (hmanifest.symm.trans hcommitted)
    obtain rfl := Option.some.inj (hsnapshot.symm.trans hmeta)
    obtain rfl := Except.ok.inj (hget.symm.trans hget')
    obtain rfl := Option.some.inj (hfetched.symm.trans hfetched')
    exact ⟨htree'.symm.trans htree, hrefs'.symm.trans hrefs⟩
  · rintro ⟨htree', hrefs'⟩
    exact ⟨_, _, answer, fetched, hmanifest, hsnapshot, hget, hfetched,
      htree.trans htree'.symm, hrefs.trans hrefs'.symm⟩

end Stored

section Example

open RecoveryEngine ManifestRead

/-- JSON with a reader that knows one snapshot. -/
def knownJson (snapshot : Snapshot) : Json :=
  Json.withReaders
    (fun _ => .error "EOF while parsing a value at line 1 column 0")
    (fun data =>
      if data = Hex.utf8 (Json.snapshot snapshot) then .ok snapshot
      else .error "EOF while parsing a value at line 1 column 0")

theorem readsBack_knownJson (snapshot : Snapshot) :
    (knownJson snapshot).snapshotFromSlice
      ((knownJson snapshot).snapshotToVec snapshot) = .ok snapshot := by
  rw [knownJson, Json.withReaders_snapshotFromSlice,
    Json.withReaders_snapshotToVec, if_pos rfl]

theorem uuidOfText_one :
    uuidOfText "00000000-0000-0000-0000-000000000001" = .ok 1#128 := by
  have htext : uuidText 1#128 = "00000000-0000-0000-0000-000000000001" := by
    decide
  rw [← htext, uuidOfText_uuidText]

/-- A commit to the repository 1 with one chunk reference and the given version
identifier in its metadata. -/
def namedArgs (versionText : String) : CommitArgs :=
  { danglingArgs with
    snapshotMeta := { danglingArgs.snapshotMeta with versionId := versionText } }

def namedRequest (versionText : String) : Request SnapshotCommitRequest where
  auth := .ok ()
  inner :=
    { danglingRequest.inner with
      snapshotMeta := some (namedArgs versionText).snapshotMeta }

/-- The snapshot as it is sealed. -/
def namedSnapshot (v : VersionId) : Snapshot :=
  { danglingSnapshot with versionId := v }

def namedExternals (v : VersionId) : Externals where
  blake3 := fun _ => danglingManifestHash
  parseUuid := uuidOfText
  json := knownJson (namedSnapshot v)

theorem parseCommit_named (versionText : String) (v : VersionId) :
    parseCommit (namedExternals v) (namedRequest versionText).inner =
      .ok (namedArgs versionText) := by
  have hrepo : Convert.parseRepoId (namedExternals v)
      "00000000-0000-0000-0000-000000000001" = .ok ⟨1#128⟩ := by
    simp only [Convert.parseRepoId, namedExternals, uuidOfText_one]
  simp only [parseCommit, namedRequest, danglingRequest, hrepo]
  rfl

theorem sealedSnapshot_named {versionText : String} {v : VersionId}
    (h : storedVersionId (namedExternals v) (drawsFrom 2)
      (namedArgs versionText) = v) :
    sealedSnapshot (namedExternals v) (drawsFrom 2) (namedArgs versionText) =
      namedSnapshot v := by
  have hhash : Convert.parseHashOrZero abcHash.toHex = abcHash := by
    simp [Convert.parseHashOrZero]
  simp only [sealedSnapshot, CommitBackup.committedSnapshot, buildSnapshot,
    buildManifest, namedArgs, danglingArgs, List.map_cons, List.map_nil, hhash]
  cases hparse : Convert.parseVersionId (namedExternals v) versionText with
  | ok w =>
      simp only [storedVersionId, namedArgs, hparse] at h
      rw [h]
      rfl
  | error e =>
      simp only [storedVersionId, namedArgs, hparse] at h
      rw [h]
      rfl

theorem readsBack_named {versionText : String} {v : VersionId}
    (h : storedVersionId (namedExternals v) (drawsFrom 2)
      (namedArgs versionText) = v) :
    (namedExternals v).json.snapshotFromSlice
      ((namedExternals v).json.snapshotToVec
        (sealedSnapshot (namedExternals v) (drawsFrom 2)
          (namedArgs versionText))) =
      .ok (sealedSnapshot (namedExternals v) (drawsFrom 2)
        (namedArgs versionText)) := by
  rw [sealedSnapshot_named h]
  exact readsBack_knownJson _

/-- The commit is answered in a new repository. -/
theorem answered_named {versionText : String} {v : VersionId}
    (h : storedVersionId (namedExternals v) (drawsFrom 2)
      (namedArgs versionText) = v) :
    ∃ response, outcome (snapshotCommit (namedExternals v) ⟨"/data"⟩
      (drawsFrom 2) (namedRequest versionText)) (Server.new [⟨1#128⟩]) =
        .ok response := by
  have hadmits : CommitBackup.Admits
      (commitState (Server.new [⟨1#128⟩]) (namedArgs versionText).repoId)
      (namedArgs versionText).parentVersionId (drawsFrom 2).commit.versionId :=
    ⟨fun _ hp => (nomatch hp), rfl⟩
  exact exists_answer rfl (parseCommit_named versionText v) rfl
    (CommitBackup.outcome_commitBackup.mpr ⟨hadmits, rfl⟩) (readsBack_named h)

/-- Metadata without a version identifier gets the one drawn for it. -/
theorem storedVersionId_unnamed :
    storedVersionId (namedExternals ⟨BitVec.ofNat 128 4⟩) (drawsFrom 2)
      (namedArgs "") = ⟨BitVec.ofNat 128 4⟩ :=
  rfl

theorem readsUuids_named (v : VersionId) : ReadsUuids (namedExternals v) := by
  intro u
  simp only [namedExternals]
  exact uuidOfText_uuidText u

/-- A commit with one chunk reference is answered, and fetched without it. -/
theorem fetched_without_reference :
    ∃ response, outcome (snapshotCommit (namedExternals ⟨BitVec.ofNat 128 4⟩)
        ⟨"/data"⟩ (drawsFrom 2) (namedRequest "")) (Server.new [⟨1#128⟩]) =
          .ok response ∧
      ¬ ReturnsStored (namedExternals ⟨BitVec.ofNat 128 4⟩) ⟨8#128, 0⟩
        (namedRequest "").inner response
        (stateAfter (snapshotCommit (namedExternals ⟨BitVec.ofNat 128 4⟩)
          ⟨"/data"⟩ (drawsFrom 2) (namedRequest "")) (Server.new [⟨1#128⟩])) := by
  obtain ⟨response, hanswer⟩ := answered_named storedVersionId_unnamed
  refine ⟨response, hanswer, ?_⟩
  have hjson := readsBack_named storedVersionId_unnamed
  have hparse := parseCommit_named "" ⟨BitVec.ofNat 128 4⟩
  have hsnapshot := snapshot_of_answer hparse hanswer hjson
  obtain ⟨answer, fetched, hget, hfetched, -, hrefs⟩ :=
    outcome_snapshotGet_of_answer ⟨8#128, 0⟩ hparse hanswer hjson
      (readsUuids_named _) (by decide) rfl
  rintro ⟨committed, snapshotMeta, answer', fetched', hcommitted, hmeta, hget',
    hfetched', -, hrefs'⟩
  obtain rfl := Option.some.inj (hsnapshot.symm.trans hmeta)
  obtain rfl := Except.ok.inj (hget.symm.trans hget')
  obtain rfl := Option.some.inj (hfetched.symm.trans hfetched')
  obtain rfl := Option.some.inj hcommitted
  rw [hrefs] at hrefs'
  cases hrefs'

/-- The snapshot of a commit without files as it is sealed. -/
def emptyCommitSnapshot : Snapshot where
  snapshotId := BitVec.ofNat 128 6
  versionId := ⟨BitVec.ofNat 128 3⟩
  sourceMachine := { hostname := "", osType := "", agentVersion := "" }
  backupPolicy := { paths := [], excludes := [], includes := [] }
  fileTree := { root := "", entries := [] }
  chunkMapping := []
  encryptionInfo := { enabled := false, algorithm := "", keyRef := none }
  compressionInfo := { algorithm := "", level := 0 }
  verifyInfo :=
    { verified := true, verifiedAt := some 0
      checksum := some emptyManifestHash.toHex }
  status := .sealed
  createdAt := 0
  totalSize := 0
  storedSize := 0
  fileCount := 0
  chunkCount := 0

def emptyCommitExternals : Externals where
  blake3 := fun _ => emptyManifestHash
  parseUuid := uuidOfText
  json := knownJson emptyCommitSnapshot

/-- The parsed commit without files. -/
def emptyCommitArgs : CommitArgs where
  repoId := ⟨1#128⟩
  parentVersionId := none
  snapshotMeta :=
    { snapshotId := "", versionId := "", repoId := "", status := 0
      sourceMachine := "", backupPolicy := [], fileTreeRoot := ""
      encryptionInfo := [], compressionInfo := []
      totalSize := 0, storedSize := 0, fileCount := 0, chunkCount := 0
      createdAt := none }
  manifest := { manifestId := "", fileTree := [], chunkRefs := [] }
  chunkHashes := []

theorem parseCommit_empty :
    parseCommit emptyCommitExternals (commitOf []).inner = .ok emptyCommitArgs := by
  have hrepo : Convert.parseRepoId emptyCommitExternals
      "00000000-0000-0000-0000-000000000001" = .ok ⟨1#128⟩ := by
    simp only [Convert.parseRepoId, emptyCommitExternals, uuidOfText_one]
  simp only [parseCommit, commitOf, hrepo]
  rfl

theorem readsBack_empty :
    emptyCommitExternals.json.snapshotFromSlice
      (emptyCommitExternals.json.snapshotToVec
        (sealedSnapshot emptyCommitExternals (drawsFrom 1) emptyCommitArgs)) =
      .ok (sealedSnapshot emptyCommitExternals (drawsFrom 1)
        emptyCommitArgs) := by
  have hsealed : sealedSnapshot emptyCommitExternals (drawsFrom 1)
      emptyCommitArgs = emptyCommitSnapshot :=
    rfl
  rw [hsealed]
  exact readsBack_knownJson _

/-- A commit without files is fetched as it was stored. -/
theorem fetched_without_files :
    ∃ response, outcome (snapshotCommit emptyCommitExternals ⟨"/data"⟩
        (drawsFrom 1) (commitOf [])) (Server.new [⟨1#128⟩]) = .ok response ∧
      ReturnsStored emptyCommitExternals ⟨8#128, 0⟩ (commitOf []).inner response
        (stateAfter (snapshotCommit emptyCommitExternals ⟨"/data"⟩ (drawsFrom 1)
          (commitOf [])) (Server.new [⟨1#128⟩])) := by
  have hadmits : CommitBackup.Admits
      (commitState (Server.new [⟨1#128⟩]) emptyCommitArgs.repoId)
      emptyCommitArgs.parentVersionId (drawsFrom 1).commit.versionId :=
    ⟨fun _ hp => (nomatch hp), rfl⟩
  have hanswered : ∃ response, outcome (snapshotCommit emptyCommitExternals
      ⟨"/data"⟩ (drawsFrom 1) (commitOf [])) (Server.new [⟨1#128⟩]) =
        .ok response :=
    exists_answer rfl parseCommit_empty rfl
      (CommitBackup.outcome_commitBackup.mpr ⟨hadmits, rfl⟩) readsBack_empty
  obtain ⟨response, hanswer⟩ := hanswered
  have huuid : ReadsUuids emptyCommitExternals := by
    intro u
    simp only [emptyCommitExternals]
    exact uuidOfText_uuidText u
  refine ⟨response, hanswer, ?_⟩
  exact (returnsStored_iff parseCommit_empty hanswer readsBack_empty huuid
    (by decide) rfl).mpr ⟨rfl, rfl⟩

end Example

end Server

end Badou
end HyperBackup
