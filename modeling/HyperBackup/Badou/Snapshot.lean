import HyperBackup.Badou.ChunkStore
import HyperBackup.Lib.LittleEndian

/-!
# Snapshots, manifests and the staging area

What a commit writes besides chunks: a manifest and a snapshot, both as JSON.
They are first written into a staging directory of the version and then moved
into the directories of the repository.  JSON itself is a parameter: `Json`
has the two directions for the types that are written or read.
-/

namespace HyperBackup
namespace Badou

open Lib Lib.Program

inductive SnapshotStatus
  | created
  | writing
  | sealed
  | corrupt
  | deleted
deriving DecidableEq

structure SourceMachine where
  hostname : String
  osType : String
  agentVersion : String
deriving DecidableEq

structure BackupPolicy where
  paths : List String
  excludes : List String
  includes : List String
deriving DecidableEq

structure KeyRef where
  keyId : Uuid
  keySource : String
deriving DecidableEq

structure EncryptionInfo where
  enabled : Bool
  algorithm : String
  keyRef : Option KeyRef
deriving DecidableEq

structure CompressionInfo where
  algorithm : String
  level : UInt32
deriving DecidableEq

structure VerifyInfo where
  verified : Bool
  verifiedAt : Option DateTime
  checksum : Option String
deriving DecidableEq

structure FileEntry where
  path : String
  size : UInt64
  isDirectory : Bool
  chunkHashes : List ChunkHash
deriving DecidableEq

structure FileTree where
  root : String
  entries : List FileEntry
deriving DecidableEq

structure ChunkMappingEntry where
  filePath : String
  offset : UInt64
  chunkHash : ChunkHash
  size : UInt64
deriving DecidableEq

structure Snapshot where
  snapshotId : Uuid
  versionId : VersionId
  sourceMachine : SourceMachine
  backupPolicy : BackupPolicy
  fileTree : FileTree
  chunkMapping : List ChunkMappingEntry
  encryptionInfo : EncryptionInfo
  compressionInfo : CompressionInfo
  verifyInfo : VerifyInfo
  status : SnapshotStatus
  createdAt : DateTime
  totalSize : UInt64
  storedSize : UInt64
  fileCount : UInt32
  chunkCount : UInt32
deriving DecidableEq

structure ChunkRef where
  chunkHash : ChunkHash
  offset : UInt64
  size : UInt64
deriving DecidableEq

structure Manifest where
  manifestId : Uuid
  snapshotId : Uuid
  fileTree : Bytes
  chunkRefs : List ChunkRef
  createdAt : DateTime
deriving DecidableEq

/-- JSON for the types the server writes or reads. -/
structure Json where
  manifestToVec : Manifest → Bytes
  manifestFromSlice : Bytes → Except String Manifest
  snapshotToVec : Snapshot → Bytes
  snapshotFromSlice : Bytes → Except String Snapshot
  policyToVec : BackupPolicy → Bytes
  policyFromSlice : Bytes → Except String BackupPolicy
  encryptionToVec : EncryptionInfo → Bytes
  encryptionFromSlice : Bytes → Except String EncryptionInfo
  compressionToVec : CompressionInfo → Bytes
  compressionFromSlice : Bytes → Except String CompressionInfo

/-- A manifest as a frame: the length of its JSON in four bytes, then the
JSON. -/
def encodeManifest (json : Json) (manifest : Manifest) : Bytes :=
  let text := json.manifestToVec manifest
  LittleEndian.encode 4 text.length ++ text

inductive ManifestStoreError
  | serde (text : String)
  | notFound (manifestId : Uuid)
  | truncated
deriving DecidableEq

def ManifestStoreError.message : ManifestStoreError → String
  | .serde text => "serde error: " ++ text
  | .notFound id => "manifest not found: " ++ uuidText id
  | .truncated => "truncated frame"

def decodeManifest (json : Json) (data : Bytes) :
    Except ManifestStoreError Manifest :=
  if data.length < 4 then .error .truncated
  else
    let len := LittleEndian.decode (data.take 4)
    if data.length < 4 + len then .error .truncated
    else (json.manifestFromSlice ((data.drop 4).take len)).mapError .serde

/-- A frame is read back if its length fits into four bytes. -/
theorem decodeManifest_encodeManifest {json : Json} {m : Manifest}
    (hlen : (json.manifestToVec m).length < 2 ^ 32)
    (hjson : json.manifestFromSlice (json.manifestToVec m) = .ok m) :
    decodeManifest json (encodeManifest json m) = .ok m := by
  have hframe : (LittleEndian.encode 4 (json.manifestToVec m).length).length =
      4 := by
    simp
  have hread : LittleEndian.decode
      ((encodeManifest json m).take 4) = (json.manifestToVec m).length := by
    rw [encodeManifest, List.take_left' hframe]
    exact LittleEndian.decode_encode hlen
  have htotal : (encodeManifest json m).length =
      4 + (json.manifestToVec m).length := by
    simp [encodeManifest]
  have hrest : (encodeManifest json m).drop 4 = json.manifestToVec m := by
    rw [encodeManifest, List.drop_left' hframe]
  have hlong : ¬ (encodeManifest json m).length < 4 := by
    omega
  unfold decodeManifest
  rw [if_neg hlong]
  simp only [hread, htotal, lt_irrefl, if_false, hrest, List.take_length, hjson,
    Except.mapError]

/-- The checksum of a manifest. -/
def computeHash
    (blake3 : Bytes → ChunkHash) (json : Json) (manifest : Manifest) : String :=
  (blake3 (encodeManifest json manifest)).toHex

/-- The two staging directories of a version, file by file. -/
structure StagingDir where
  manifestStaging : HashMap String Bytes
  snapshotStaging : HashMap String Bytes

def StagingDir.empty : StagingDir :=
  { manifestStaging := ∅, snapshotStaging := ∅ }

inductive StagingError
  | alreadyExists (versionId : Uuid)
deriving DecidableEq

def StagingError.message : StagingError → String
  | .alreadyExists versionId =>
      "staging already exists for version: " ++ uuidText versionId

/-- The directories of a repository that hold manifests and snapshots. -/
structure Catalog where
  manifests : HashMap String Bytes
  snapshots : HashMap String Bytes
  staging : HashMap Uuid StagingDir

namespace Catalog

def empty : Catalog :=
  { manifests := ∅, snapshots := ∅, staging := ∅ }

def createStaging (versionId : Uuid) : EStateM StagingError Catalog Unit := do
  let catalog ← get
  if (catalog.staging.lookup versionId).isSome then
    throw (.alreadyExists versionId)
  set { catalog with staging := catalog.staging.insert versionId .empty }

theorem run_createStaging_free
    {catalog : Catalog} {v : Uuid} (h : catalog.staging.lookup v = none) :
    (createStaging v).run catalog =
      .ok () { catalog with staging := catalog.staging.insert v .empty } := by
  simp only [createStaging, EStateM.run_bind, EStateM.run_get, h,
    Option.isSome_none, Bool.false_eq_true, if_false, EStateM.run_set]

theorem run_createStaging_taken
    {catalog : Catalog} {v : Uuid} {dir : StagingDir}
    (h : catalog.staging.lookup v = some dir) :
    (createStaging v).run catalog = .error (.alreadyExists v) catalog := by
  simp only [createStaging, EStateM.run_bind, EStateM.run_get, h,
    Option.isSome_some, if_true]
  rfl

/-- Snapshot files go to the snapshot side, all others to the manifests. -/
def writeToStaging
    (versionId : Uuid) (fileName : String) (data : Bytes)
    (catalog : Catalog) : Catalog :=
  { catalog with
    staging := HashMap.modify catalog.staging versionId fun dir =>
      if ".manifest".toList.isSuffixOf fileName.toList then
        { dir with manifestStaging := dir.manifestStaging.insert fileName data }
      else if ".snapshot".toList.isSuffixOf fileName.toList then
        { dir with snapshotStaging := dir.snapshotStaging.insert fileName data }
      else
        { dir with manifestStaging := dir.manifestStaging.insert fileName data } }

/-- Move every staged file into its directory. -/
def commitDir (staged target : HashMap String Bytes) : HashMap String Bytes :=
  (HashMap.toList staged).foldl (fun dir file => dir.insert file.1 file.2) target

def cleanupStaging (versionId : Uuid) (catalog : Catalog) : Catalog :=
  { catalog with staging := catalog.staging.erase versionId }

def atomicCommit (versionId : Uuid) (catalog : Catalog) : Catalog :=
  match catalog.staging.lookup versionId with
  | none => catalog
  | some dir =>
      cleanupStaging versionId {
        catalog with
        manifests := commitDir dir.manifestStaging catalog.manifests
        snapshots := commitDir dir.snapshotStaging catalog.snapshots }

end Catalog

inductive SnapshotStoreError
  | serde (text : String)
  | notFound (snapshotId : Uuid)
  | sealedImmutable (snapshotId : Uuid)
  | verifyInfoMissing (snapshotId : Uuid)
deriving DecidableEq

def SnapshotStoreError.message : SnapshotStoreError → String
  | .serde text => "serde error: " ++ text
  | .notFound id => "snapshot not found: " ++ uuidText id
  | .sealedImmutable id =>
      "snapshot is sealed and cannot be modified: " ++ uuidText id
  | .verifyInfoMissing id =>
      "verify_info missing for snapshot: " ++ uuidText id

namespace ManifestStore

def manifestName (manifestId : Uuid) : String :=
  uuidText manifestId ++ ".manifest"

theorem manifestName_injective : Function.Injective manifestName := by
  intro id id' h
  exact uuidText_injective ((String.append_left_inj _).mp h)

/-- Write the frame beside its place and move it there. -/
def writeManifest (json : Json) (manifest : Manifest) (catalog : Catalog) :
    Catalog :=
  let name := manifestName manifest.manifestId
  let staging := name ++ ".staging"
  let encoded := encodeManifest json manifest
  let staged := catalog.manifests.insert staging encoded
  { catalog with manifests := (staged.erase staging).insert name encoded }

def readManifest (json : Json) (catalog : Catalog) (manifestId : Uuid) :
    Except ManifestStoreError Manifest :=
  match catalog.manifests.lookup (manifestName manifestId) with
  | none => .error (.notFound manifestId)
  | some data => decodeManifest json data

theorem readManifest_of_lookup {json : Json} {catalog : Catalog} {id : Uuid}
    {data : Bytes}
    (h : catalog.manifests.lookup (manifestName id) = some data) :
    readManifest json catalog id = decodeManifest json data := by
  simp only [readManifest, h]

end ManifestStore

namespace SnapshotStore

def snapshotName (snapshotId : Uuid) : String :=
  uuidText snapshotId ++ ".snapshot"

theorem snapshotName_injective : Function.Injective snapshotName := by
  intro id id' h
  exact uuidText_injective ((String.append_left_inj _).mp h)

/-- The name a snapshot is first written under. -/
def stagingName (snapshotId : Uuid) : String :=
  snapshotName snapshotId ++ ".staging"

theorem snapshotName_ne_stagingName (id id' : Uuid) :
    snapshotName id' ≠ stagingName id := by
  intro heq
  have hlast := congrArg (fun name => name.toList.getLast?) heq
  simp [stagingName, snapshotName] at hlast

/-- Write a file under one name and move it to another. -/
def writeAndRename (stagingName name : String) (data : Bytes)
    (dir : HashMap String Bytes) : HashMap String Bytes :=
  ((dir.insert stagingName data).erase stagingName).insert name data

def writeSnapshot (json : Json) (snapshot : Snapshot) :
    EStateM SnapshotStoreError Catalog Uuid := do
  if snapshot.status = .sealed ∧ ¬ snapshot.verifyInfo.verified then
    throw (.verifyInfoMissing snapshot.snapshotId)
  let data := json.snapshotToVec snapshot
  modify fun catalog =>
    { catalog with
      snapshots := writeAndRename (stagingName snapshot.snapshotId)
        (snapshotName snapshot.snapshotId) data catalog.snapshots }
  return snapshot.snapshotId

def readSnapshot (json : Json) (catalog : Catalog) (snapshotId : Uuid) :
    Except SnapshotStoreError Snapshot :=
  match catalog.snapshots.lookup (snapshotName snapshotId) with
  | none => .error (.notFound snapshotId)
  | some data =>
      match json.snapshotFromSlice data with
      | .error text => .error (.serde text)
      | .ok snapshot => .ok snapshot

/-- Seal a stored snapshot in its place. -/
def sealSnapshot (json : Json) (snapshotId : Uuid) :
    EStateM SnapshotStoreError Catalog Unit := do
  let snapshot ← ofResult id (readSnapshot json (← get) snapshotId)
  if snapshot.status = .sealed then
    throw (.sealedImmutable snapshotId)
  if ¬ snapshot.verifyInfo.verified then
    throw (.verifyInfoMissing snapshotId)
  let data := json.snapshotToVec { snapshot with status := .sealed }
  modify fun catalog =>
    { catalog with
      snapshots := catalog.snapshots.insert (snapshotName snapshotId) data }

theorem lookup_writeAndRename (stagingName name k : String) (data : Bytes)
    (dir : HashMap String Bytes) :
    (writeAndRename stagingName name data dir).lookup k =
      if k = name then some data
      else if k = stagingName then none
      else dir.lookup k := by
  rw [writeAndRename, HashMap.lookup_insert_of, HashMap.lookup_erase_of,
    HashMap.lookup_insert_of]
  split
  · rfl
  · split
    · rfl
    · rfl

theorem readSnapshot_of_lookup {json : Json} {catalog : Catalog} {id : Uuid}
    {data : Bytes} {snapshot : Snapshot}
    (h : catalog.snapshots.lookup (snapshotName id) = some data)
    (hjson : json.snapshotFromSlice data = .ok snapshot) :
    readSnapshot json catalog id = .ok snapshot := by
  simp only [readSnapshot, h, hjson]

theorem fromSlice_of_readSnapshot {json : Json} {catalog : Catalog} {id : Uuid}
    {data : Bytes} {snapshot : Snapshot}
    (h : catalog.snapshots.lookup (snapshotName id) = some data)
    (hread : readSnapshot json catalog id = .ok snapshot) :
    json.snapshotFromSlice data = .ok snapshot := by
  simp only [readSnapshot, h] at hread
  cases hjson : json.snapshotFromSlice data with
  | error text =>
      rw [hjson] at hread
      cases hread
  | ok snapshot' =>
      rw [hjson] at hread
      cases hread
      rfl

end SnapshotStore

namespace Catalog

section Specs

variable {catalog : Catalog} {v : Uuid} {dir : StagingDir} {d : Bytes}

/-- A manifest is staged on the side of the manifests. -/
theorem lookup_writeToStaging_manifest (manifestId : Uuid)
    (hdir : catalog.staging.lookup v = some dir) (u : Uuid) :
    (catalog.writeToStaging v (ManifestStore.manifestName manifestId)
        d).staging.lookup u =
      if u = v then
        some { dir with
          manifestStaging := dir.manifestStaging.insert
            (ManifestStore.manifestName manifestId) d }
      else catalog.staging.lookup u := by
  have hsuffix : ".manifest".toList.isSuffixOf
      (ManifestStore.manifestName manifestId).toList = true := by
    rw [List.isSuffixOf_iff_suffix, ManifestStore.manifestName,
      String.toList_append]
    exact List.suffix_append _ _
  simp only [writeToStaging, HashMap.lookup_modify, hdir, Option.map_some,
    hsuffix, if_true]

/-- A snapshot is staged on the side of the snapshots. -/
theorem lookup_writeToStaging_snapshot (snapshotId : Uuid)
    (hdir : catalog.staging.lookup v = some dir) (u : Uuid) :
    (catalog.writeToStaging v (SnapshotStore.snapshotName snapshotId)
        d).staging.lookup u =
      if u = v then
        some { dir with
          snapshotStaging := dir.snapshotStaging.insert
            (SnapshotStore.snapshotName snapshotId) d }
      else catalog.staging.lookup u := by
  have hname : (SnapshotStore.snapshotName snapshotId).toList =
      (uuidText snapshotId).toList ++ ".snapshot".toList := by
    rw [SnapshotStore.snapshotName, String.toList_append]
  have hsuffix : ".snapshot".toList.isSuffixOf
      (SnapshotStore.snapshotName snapshotId).toList = true := by
    rw [List.isSuffixOf_iff_suffix, hname]
    exact List.suffix_append _ _
  have hother : ¬ ".manifest".toList.isSuffixOf
      (SnapshotStore.snapshotName snapshotId).toList = true := by
    rw [List.isSuffixOf_iff_suffix, hname]
    rintro ⟨front, hfront⟩
    exact absurd (List.append_inj_right' hfront (by decide)) (by decide)
  simp only [writeToStaging, HashMap.lookup_modify, hdir, Option.map_some,
    hsuffix, hother, if_true, Bool.false_eq_true, if_false]

/-- Moving the only staged file adds it to the directory. -/
theorem commitDir_insert_empty (name : String) (target : HashMap String Bytes) :
    commitDir ((∅ : HashMap String Bytes).insert name d) target =
      target.insert name d :=
  rfl

/-- Commit the staging area and write the snapshot once more. -/
def publish (v snapshotId : Uuid) (staged final : Bytes) (catalog : Catalog) :
    Catalog :=
  let name := SnapshotStore.snapshotName snapshotId
  let committed := (catalog.writeToStaging v name staged).atomicCommit v
  { committed with
    snapshots := SnapshotStore.writeAndRename
      (SnapshotStore.stagingName snapshotId) name final committed.snapshots }

/-- What is left of a staged manifest and a published snapshot. -/
theorem publish_writeToStaging
    (hempty : catalog.staging.lookup v = some .empty)
    (manifestId snapshotId : Uuid) (text staged final : Bytes) :
    let manifest := ManifestStore.manifestName manifestId
    let snapshot := SnapshotStore.snapshotName snapshotId
    let c := publish v snapshotId staged final
      (catalog.writeToStaging v manifest text)
    (∀ name, c.manifests.lookup name =
        if name = manifest then some text else catalog.manifests.lookup name) ∧
      (∀ name, c.snapshots.lookup name =
        if name = snapshot then some final
        else if name = SnapshotStore.stagingName snapshotId then none
        else catalog.snapshots.lookup name) ∧
      ∀ u, c.staging.lookup u =
        if u = v then none else catalog.staging.lookup u := by
  intro manifest snapshot c
  have hmanifest := lookup_writeToStaging_manifest (d := text) manifestId hempty
  have hdir := lookup_writeToStaging_snapshot (d := staged) snapshotId
    ((hmanifest v).trans (if_pos rfl)) v
  rw [if_pos rfl] at hdir
  have hc : c =
      { manifests := catalog.manifests.insert manifest text
        snapshots := SnapshotStore.writeAndRename
          (SnapshotStore.stagingName snapshotId) snapshot final
          (catalog.snapshots.insert snapshot staged)
        staging := ((catalog.writeToStaging v manifest text).writeToStaging v
          snapshot staged).staging.erase v } := by
    simp only [c, publish, atomicCommit, cleanupStaging]
    rw [hdir]
    rfl
  rw [hc]
  refine ⟨fun name => HashMap.lookup_insert_of _ _ _ _, ?_, ?_⟩
  · intro name
    rw [SnapshotStore.lookup_writeAndRename, HashMap.lookup_insert_of]
    split
    · rfl
    · rfl
  · intro u
    rw [HashMap.lookup_erase_of]
    by_cases hu : u = v
    · rw [if_pos hu, if_pos hu]
    · rw [if_neg hu, if_neg hu, lookup_writeToStaging_snapshot snapshotId
        ((hmanifest v).trans (if_pos rfl)) u, if_neg hu, hmanifest, if_neg hu]

end Specs

end Catalog

end Badou
end HyperBackup
