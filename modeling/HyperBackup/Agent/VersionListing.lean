import HyperBackup.Agent.Cleanup
import HyperBackup.Agent.Engine

/-!
# Cleanup and the list of versions

`listVersions` goes through the files of the manifest directory and lists every
version whose manifest can be read.  `CleanupExecutor` reports versions as
deleted and reclaims their chunks, but removes no manifest.

So a version that is reported as deleted is listed afterwards if it was listed
before, and then without its chunks.  Cleanup does what it reports exactly if
no version to be deleted was listed in the first place; then it also reclaims
nothing.
-/

namespace HyperBackup
namespace Agent

open Lib

structure VersionSummary where
  versionId : Uuid
  versionNumber : Nat
  timestamp : DateTime
  backupType : BackupType
  totalSize : Nat
  storedSize : Nat
deriving DecidableEq

namespace LocalRepository

section Operations

variable (root : String) (json : ManifestJson) (parseStr : String → Option Uuid)

/-- The summary has no sizes. -/
def versionSummary (uuid : Uuid) (manifest : Manifest) : VersionSummary where
  versionId := uuid
  versionNumber := manifest.versionNumber
  timestamp := manifest.timestamp
  backupType := manifest.backupType
  totalSize := 0
  storedSize := 0

/-- The version that a file of the machine stands for. -/
def versionOf (path : String) (data : Bytes) : Option VersionSummary :=
  (Path.childName (Path.join root "manifests") path).bind fun filename =>
    (Path.stripEnd ".manifest" filename).bind fun idStr =>
      (parseStr idStr).bind fun uuid =>
        (json.fromSlice data).toOption.map (versionSummary uuid)

/-- The versions in the order in which the directory lists its files. -/
def listVersions (order : IterOrder (String × Bytes)) (files : Files) :
    List VersionSummary :=
  (order.arrange (HashMap.toList files)).filterMap fun e =>
    versionOf root json parseStr e.1 e.2

/-- The version is listed. -/
def Listed (order : IterOrder (String × Bytes)) (files : Files)
    (v : VersionId) : Prop :=
  v.uuid ∈ (listVersions root json parseStr order files).map
    VersionSummary.versionId

end Operations

section Specs

variable {root : String} {json : ManifestJson} {parseStr : String → Option Uuid}
variable {order : IterOrder (String × Bytes)} {files : Files}

theorem listed_iff {v : VersionId} :
    Listed root json parseStr order files v ↔
      ∃ path data summary, files.lookup path = some data ∧
        versionOf root json parseStr path data = some summary ∧
          summary.versionId = v.uuid := by
  simp only [Listed, listVersions, List.mem_map, List.mem_filterMap,
    IterOrder.mem_arrange]
  constructor
  · rintro ⟨summary, ⟨⟨path, data⟩, hmem, hversion⟩, hid⟩
    exact ⟨path, data, summary, HashMap.mem_toList.mp hmem, hversion, hid⟩
  · rintro ⟨path, data, summary, hlookup, hversion, hid⟩
    exact ⟨summary, ⟨(path, data), HashMap.mem_toList.mpr hlookup, hversion⟩, hid⟩

/-- A file that stands for a version has the name of a manifest. -/
theorem exists_path_eq_append {path : String} {data : Bytes}
    {summary : VersionSummary}
    (h : versionOf root json parseStr path data = some summary) :
    ∃ front, path = front ++ ".manifest" := by
  obtain ⟨filename, hchild, hrest⟩ := Option.bind_eq_some_iff.mp h
  obtain ⟨idStr, hstrip, _⟩ := Option.bind_eq_some_iff.mp hrest
  obtain ⟨front, hfront⟩ :=
    Path.exists_join_eq_append (Path.join root "manifests") filename
  refine ⟨front ++ idStr, ?_⟩
  rw [Path.eq_join_of_childName hchild, hfront, Path.eq_append_of_stripEnd hstrip,
    String.append_assoc]

theorem slash_not_mem_manifestFilename (v : VersionId) :
    '/' ∉ (manifestFilename v).toList := by
  have hhex : ∀ bytes, '/' ∉ (Hex.encode bytes).toList := by
    intro bytes hmem
    exact Hex.forall_mem_encode (P := fun c => c ≠ '/') (by decide) bytes _ hmem rfl
  simp [manifestFilename, uuidText, hhex]

/-- The file that `writeManifest` writes stands for its version. -/
theorem versionOf_manifestPath {v : VersionId} {data : Bytes} {m : Manifest}
    (hparse : parseStr (uuidText v.uuid) = some v.uuid)
    (hjson : json.fromSlice data = .ok m) :
    versionOf root json parseStr (manifestPath root v) data =
      some (versionSummary v.uuid m) := by
  have hchild : Path.childName (Path.join root "manifests")
      (manifestPath root v) = some (manifestFilename v) :=
    Path.childName_join _ (slash_not_mem_manifestFilename v)
  have hstrip : Path.stripEnd ".manifest" (manifestFilename v) =
      some (uuidText v.uuid) := Path.stripEnd_append _ _
  simp only [versionOf, hchild, hstrip, hparse, hjson, Option.bind_some]
  rfl

/-- A version whose manifest can be read is listed. -/
theorem listed_of_readManifest {v : VersionId} {m : Manifest}
    (hparse : parseStr (uuidText v.uuid) = some v.uuid)
    (h : readManifest root json files v = .ok m) :
    Listed root json parseStr order files v := by
  obtain ⟨data, hdata, hslice⟩ := readManifest_eq_ok_iff.mp h
  exact listed_iff.mpr ⟨_, data, versionSummary v.uuid m, hdata,
    versionOf_manifestPath hparse hslice, rfl⟩

end Specs

end LocalRepository

namespace CleanupExecutor

open LocalRepository

section Listing

variable {executor : Executor} {parseStr : String → Option Uuid}
variable {order : IterOrder (String × Bytes)}

theorem manifest_name_ne_lockPath (front root : String) (lockId : Uuid) :
    front ++ ".manifest" ≠ lockPath root lockId := by
  obtain ⟨r, hr⟩ := Path.exists_join_eq_append (Path.join root "locks")
    (uuidText lockId ++ ".lock")
  have hname : front ++ ".manifest" = (front ++ ".man") ++ "ifest" := by
    rw [String.append_assoc]
    rfl
  rw [lockPath, hr, hname, ← String.append_assoc]
  exact Path.append_ne_append (by decide) (by decide)

theorem manifest_name_ne_chunkPath (front root : String) (h : ChunkHash) :
    front ++ ".manifest" ≠ chunkPath root h := by
  obtain ⟨r, hr⟩ := exists_chunkPath_eq_append root h
  have hname : front ++ ".manifest" = (front ++ ".ma") ++ "nifest" := by
    rw [String.append_assoc]
    rfl
  rw [hr, hname]
  exact Path.append_ne_append (by decide) (by decide)

theorem lookup_reclaimChunk (front : String) (acc : Files × List ChunkHash)
    (hash : ChunkHash) :
    (reclaimChunk executor acc hash).1.lookup (front ++ ".manifest") =
      acc.1.lookup (front ++ ".manifest") := by
  by_cases hhash : chunkExists executor.root acc.1 hash
  · have hfind : findChunk executor.root acc.1 hash = .ok (chunkLocation hash) :=
      if_pos hhash
    have hne : front ++ ".manifest" ≠
        locationPath executor.root (chunkLocation hash) :=
      manifest_name_ne_chunkPath front executor.root hash
    simp only [reclaimChunk, hfind, deleteChunk, Files.lookup_remove, if_neg hne]
  · have hfind : findChunk executor.root acc.1 hash =
        .error (.failed "chunk not found") := if_neg hhash
    simp only [reclaimChunk, hfind]

/-- An execution leaves every manifest where it is. -/
theorem lookup_execute (front : String) (decision : RetentionDecision)
    (files : Files) :
    (execute executor decision files).2.lookup (front ++ ".manifest") =
      files.lookup (front ++ ".manifest") := by
  have hfold : ∀ (hashes : List ChunkHash) (acc : Files × List ChunkHash),
      (hashes.foldl (reclaimChunk executor) acc).1.lookup (front ++ ".manifest") =
        acc.1.lookup (front ++ ".manifest") := by
    intro hashes
    induction hashes with
    | nil =>
        intro acc
        rfl
    | cons hash hashes ih =>
        intro acc
        rw [List.foldl_cons, ih, lookup_reclaimChunk]
  simp only [execute, hfold, acquireLock, Files.lookup_write]
  rw [if_neg (manifest_name_ne_lockPath front _ _)]

/-- An execution does not change which versions are listed. -/
theorem listed_execute_iff (decision : RetentionDecision) (files : Files)
    (v : VersionId) :
    Listed executor.root executor.json parseStr order
        (execute executor decision files).2 v ↔
      Listed executor.root executor.json parseStr order files v := by
  simp only [listed_iff]
  constructor
  · rintro ⟨path, data, summary, hlookup, hversion, hid⟩
    obtain ⟨front, rfl⟩ := exists_path_eq_append hversion
    rw [lookup_execute] at hlookup
    exact ⟨_, data, summary, hlookup, hversion, hid⟩
  · rintro ⟨path, data, summary, hlookup, hversion, hid⟩
    obtain ⟨front, rfl⟩ := exists_path_eq_append hversion
    rw [← lookup_execute front decision files] at hlookup
    exact ⟨_, data, summary, hlookup, hversion, hid⟩

/-- No version that is reported as deleted is listed, and every listed version
that had all its chunks has them still. -/
structure DeletesWhatItReports (executor : Executor)
    (parseStr : String → Option Uuid) (order : IterOrder (String × Bytes))
    (files : Files) (outcome : CleanupResult × Files) : Prop where
  deleted : ∀ v ∈ outcome.1.deletedVersions,
    ¬ Listed executor.root executor.json parseStr order outcome.2 v
  complete : ∀ v m,
    Listed executor.root executor.json parseStr order outcome.2 v →
    readManifest executor.root executor.json outcome.2 v = .ok m →
    (∀ ref ∈ m.chunkRefs, chunkExists executor.root files ref.hash) →
      ∀ ref ∈ m.chunkRefs, chunkExists executor.root outcome.2 ref.hash

/-- Where no version to be deleted is listed, none of their chunks is known. -/
theorem chunksInDeleted_eq_nil {decision : RetentionDecision} {files : Files}
    (hparse : ∀ v ∈ decision.delete,
      parseStr (uuidText v.uuid) = some v.uuid)
    (h : ∀ v ∈ toDelete executor decision,
      ¬ Listed executor.root executor.json parseStr order files v) :
    chunksInDeleted executor decision files = [] := by
  refine List.flatMap_eq_nil_iff.mpr ?_
  rintro ⟨v, read⟩ hmem
  have hv : v ∈ toDelete executor decision := List.fst_mem_of_mem_zipIdx hmem
  simp only [readChunkRefs]
  split
  · rfl
  · cases hread : readManifest executor.root executor.json files v with
    | error e =>
        rfl
    | ok m =>
        exact absurd (listed_of_readManifest
          (hparse v (List.mem_filter.mp hv).1) hread) (h v hv)

/-- Cleanup deletes what it reports iff none of the versions to be deleted is
listed before. -/
theorem deletesWhatItReports_execute_iff (decision : RetentionDecision)
    (files : Files)
    (hparse : ∀ v ∈ decision.delete,
      parseStr (uuidText v.uuid) = some v.uuid) :
    DeletesWhatItReports executor parseStr order files
        (execute executor decision files) ↔
      ∀ v ∈ toDelete executor decision,
        ¬ Listed executor.root executor.json parseStr order files v := by
  constructor
  · intro h v hv hlisted
    exact h.deleted v hv ((listed_execute_iff decision files v).mpr hlisted)
  · intro h
    refine ⟨?_, ?_⟩
    · intro v hv hlisted
      exact h v hv ((listed_execute_iff decision files v).mp hlisted)
    · intro v m _ _ hbefore ref href
      refine (chunkExists_execute decision files ref.hash).mpr
        ⟨hbefore ref href, ?_⟩
      rw [chunksInDeleted_eq_nil hparse h]
      rintro ⟨hmem, _⟩
      cases hmem

end Listing

section Example

/-- A version and its only chunk. -/
def oneVersionFiles : Files :=
  Files.write (Files.write ∅
    (manifestPath "/repo" ⟨BitVec.ofNat 128 1⟩)
      (Json.manifestBytes (emptyChunkVersion 1)))
    (chunkPath "/repo" .ofEmpty) (List.replicate 28 0)

/-- No version is in use; every manifest can be read. -/
def idleExecutor : Executor where
  root := "/repo"
  json := BackupEngine.exampleJson (emptyChunkVersion 1)
  inUseVersions := []
  readFails := fun _ => false
  order := .asStored
  lockId := 3
  lockText := []

/-- The policy has the version to be deleted. -/
def deleteOne : RetentionDecision where
  keep := []
  delete := [⟨BitVec.ofNat 128 1⟩]

/-- Reads the one identifier of the example. -/
def parseOne (text : String) : Option Uuid :=
  if text = uuidText (BitVec.ofNat 128 1) then some (BitVec.ofNat 128 1) else none

theorem parseOne_deleteOne :
    ∀ v ∈ deleteOne.delete, parseOne (uuidText v.uuid) = some v.uuid := by
  intro v hv
  cases List.mem_singleton.mp hv
  exact if_pos rfl

theorem readManifest_oneVersionFiles :
    readManifest "/repo" (BackupEngine.exampleJson (emptyChunkVersion 1))
        oneVersionFiles ⟨BitVec.ofNat 128 1⟩ = .ok (emptyChunkVersion 1) := by
  have hlookup : oneVersionFiles.lookup
      (manifestPath "/repo" ⟨BitVec.ofNat 128 1⟩) =
        some (Json.manifestBytes (emptyChunkVersion 1)) := by
    simp only [oneVersionFiles, Files.lookup_write,
      if_neg (manifestPath_ne_chunkPath _ _), if_pos]
  have hjson : (BackupEngine.exampleJson (emptyChunkVersion 1)).fromSlice
      (Json.manifestBytes (emptyChunkVersion 1)) = .ok (emptyChunkVersion 1) := by
    simp [BackupEngine.exampleJson]
  exact readManifest_eq_ok hlookup hjson

theorem listed_oneVersionFiles :
    Listed "/repo" (BackupEngine.exampleJson (emptyChunkVersion 1)) parseOne
      .asStored oneVersionFiles ⟨BitVec.ofNat 128 1⟩ :=
  listed_of_readManifest (if_pos rfl) readManifest_oneVersionFiles

theorem deletesWhatItReports_oneVersion_iff :
    DeletesWhatItReports idleExecutor parseOne .asStored oneVersionFiles
        (execute idleExecutor deleteOne oneVersionFiles) ↔
      ∀ v ∈ toDelete idleExecutor deleteOne,
        ¬ Listed "/repo" idleExecutor.json parseOne .asStored oneVersionFiles v :=
  deletesWhatItReports_execute_iff deleteOne oneVersionFiles parseOne_deleteOne

/-- The version that cleanup reports as deleted is still listed. -/
theorem deleted_version_still_listed :
    ¬ DeletesWhatItReports idleExecutor parseOne .asStored oneVersionFiles
      (execute idleExecutor deleteOne oneVersionFiles) := by
  intro h
  have hdeleted : (⟨BitVec.ofNat 128 1⟩ : VersionId) ∈
      (execute idleExecutor deleteOne oneVersionFiles).1.deletedVersions := by
    change _ ∈ toDelete idleExecutor deleteOne
    exact List.mem_filter.mpr ⟨List.mem_singleton_self _, rfl⟩
  exact h.deleted _ hdeleted
    ((listed_execute_iff deleteOne oneVersionFiles _).mpr listed_oneVersionFiles)

end Example

end CleanupExecutor

end Agent
end HyperBackup
