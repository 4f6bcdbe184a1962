import HyperBackup.Badou.ManifestRead
import HyperBackup.Lib.Trace
import Mathlib.Logic.Function.Basic

/-!
# A commit that is cut off

The file-system operations of a commit, one after the other: journal records,
the two staging directories of the version, the chunk files, the staged
manifest and the staged snapshot, their moves into the directories of the
repository, and the snapshot once more, now as sealed.  A crash keeps a first
part of them.  What is left is then cleaned up, by removing the staging
directories of every version that has one beside the manifests.

The operations are those of `commitBackup` (`performs_commitBackup`).  The
main result says at which crash points the repository is left with both the
manifest and the sealed snapshot of the version, or with neither.
-/

namespace HyperBackup
namespace Badou
namespace CommitCrash

open Lib Lib.Program Lib.Trace

/-- The two directories a commit writes to, each with its staging area. -/
inductive Side
  | manifests
  | snapshots
deriving DecidableEq

/-- A repository on disk.  A staging area has a directory for some versions. -/
@[ext]
structure RepoDisk where
  store : Store
  dir : Side → String → Option Bytes
  staging : Side → Uuid → Option (String → Option Bytes)
  journal : List BadouJournalEntry

inductive FsOp
  | appendJournal (entry : BadouJournalEntry)
  | writeChunk (chunkHash : ChunkHash) (data : Bytes)
  | createDir (side : Side) (versionId : Uuid)
  | writeStaged (side : Side) (versionId : Uuid) (name : String) (data : Bytes)
  | renameStaged (side : Side) (versionId : Uuid) (name : String)
  | removeDir (side : Side) (versionId : Uuid)
  | write (side : Side) (name : String) (data : Bytes)
  | rename (side : Side) (source target : String)
deriving DecidableEq

namespace RepoDisk

def setFile (side : Side) (name : String) (data : Option Bytes)
    (d : RepoDisk) : RepoDisk :=
  { d with
    dir := Function.update d.dir side (Function.update (d.dir side) name data) }

def setStaging (side : Side) (v : Uuid) (files : Option (String → Option Bytes))
    (d : RepoDisk) : RepoDisk :=
  { d with
    staging := Function.update d.staging side
      (Function.update (d.staging side) v files) }

end RepoDisk

section Operations

variable (layout : BadouDataLayout) (repoId : RepositoryId)

/-- The effect of one operation.  Moving a file that is not there fails and
changes nothing. -/
def exec : FsOp → RepoDisk → RepoDisk
  | .appendJournal entry, d => { d with journal := d.journal ++ [entry] }
  | .writeChunk h data, d =>
      { d with
        store := stateAfter (ChunkStore.writeChunk layout repoId h data) d.store }
  | .createDir side v, d =>
      d.setStaging side v (some ((d.staging side v).getD fun _ => none))
  | .writeStaged side v name data, d =>
      d.setStaging side v
        ((d.staging side v).map fun files => Function.update files name data)
  | .renameStaged side v name, d =>
      match d.staging side v with
      | none => d
      | some files =>
          match files name with
          | none => d
          | some data =>
              (d.setStaging side v (some (Function.update files name none))).setFile
                side name data
  | .removeDir side v, d => d.setStaging side v none
  | .write side name data, d => d.setFile side name data
  | .rename side source target, d =>
      match d.dir side source with
      | none => d
      | some data => (d.setFile side source none).setFile side target data

/-- Remove the staging directories of one version. -/
def cleanupStaging (d : RepoDisk) (v : Uuid) : RepoDisk :=
  run (exec layout repoId) [.removeDir .manifests v, .removeDir .snapshots v] d

/-- A listing of the staging area beside the manifests, in any order. -/
def ListPendingStaging (d : RepoDisk) (pending : List Uuid) : Prop :=
  ∀ v, v ∈ pending ↔ (d.staging .manifests v).isSome

/-- The clean-up after a crash leads from one disk to the other. -/
def CleanupIncomplete (d d' : RepoDisk) : Prop :=
  ∃ pending, ListPendingStaging d pending ∧
    d' = pending.foldl (cleanupStaging layout repoId) d

variable (blake3 : Bytes → ChunkHash) (json : Json) (draws : CommitDraws)
variable (parentVersionId : Option VersionId) (manifest : Manifest)
variable (snapshot : Snapshot) (chunks : List (ChunkHash × Bytes))

def journalOp (opType : JournalOpType) (payload : String) (committed : Bool) :
    FsOp :=
  .appendJournal
    { opType := opType
      timestamp := draws.now
      jobId := draws.versionId.uuid
      payload := Hex.utf8 payload
      committed := committed }

/-- Move the manifest, move the snapshot, drop the staging directories. -/
def atomicCommitOps (v : Uuid) (manifestName snapshotName : String) : List FsOp :=
  [.renameStaged .manifests v manifestName,
    .renameStaged .snapshots v snapshotName,
    .removeDir .manifests v,
    .removeDir .snapshots v]

def writeSnapshotOps (snapshotId : Uuid) (data : Bytes) : List FsOp :=
  [.write .snapshots (SnapshotStore.stagingName snapshotId) data,
    .rename .snapshots (SnapshotStore.stagingName snapshotId)
      (SnapshotStore.snapshotName snapshotId)]

/-- The operations that publish what has been staged. -/
def publishOps : List FsOp :=
  atomicCommitOps draws.versionId.uuid
    (ManifestStore.manifestName manifest.manifestId)
    (SnapshotStore.snapshotName draws.snapshotId) ++
  journalOp draws .commitStep "staging_committed" false ::
  (writeSnapshotOps draws.snapshotId
      (json.snapshotToVec (CommitBackup.committedSnapshot blake3 json draws
        manifest snapshot .sealed)) ++
    [journalOp draws .commitStep "sealed" true])

/-- The operations after a successful verification. -/
def sealOps : List FsOp :=
  journalOp draws .verifyStep "verified" false ::
  .writeStaged .snapshots draws.versionId.uuid
    (SnapshotStore.snapshotName draws.snapshotId)
    (json.snapshotToVec (CommitBackup.committedSnapshot blake3 json draws
      manifest snapshot .writing)) ::
  publishOps blake3 json draws manifest snapshot

/-- The operations after a verification, depending on how it went. -/
def endOps : Except ChunkStoreError Bool → List FsOp
  | .error _ => []
  | .ok false =>
      [.removeDir .manifests draws.versionId.uuid,
        .removeDir .snapshots draws.versionId.uuid,
        journalOp draws .recovery "chunk hash verification failed" false]
  | .ok true => sealOps blake3 json draws manifest snapshot

/-- The operations once the staging directories can be created. -/
def writeOps (st : Store) : List FsOp :=
  .createDir .manifests draws.versionId.uuid ::
  .createDir .snapshots draws.versionId.uuid ::
  (chunks.map (fun c => .writeChunk c.1 c.2) ++
    .writeStaged .manifests draws.versionId.uuid
      (ManifestStore.manifestName manifest.manifestId)
      (json.manifestToVec manifest) ::
    journalOp draws .commitStep "chunks_written" false ::
    endOps blake3 json draws manifest snapshot
      (CommitBackup.verifyChunks blake3
        (stateAfter (ChunkStore.writeChunks layout repoId chunks) st) chunks))

/-- The file-system operations of a commit. -/
def commitOps (s : CommitState) : List FsOp :=
  if parentVersionId.any fun p => (s.versions.versions.lookup p).isNone then []
  else
    journalOp draws .commitStep "start" false ::
      if (s.repo.catalog.staging.lookup draws.versionId.uuid).isSome then []
      else writeOps layout repoId blake3 json draws manifest snapshot chunks
        s.repo.store

end Operations

section Refinement

/-- The files in one of the staging directories of a version. -/
def stagedFiles (dir : StagingDir) : Side → String → Option Bytes
  | .manifests => fun name => dir.manifestStaging.lookup name
  | .snapshots => fun name => dir.snapshotStaging.lookup name

def catalogFiles (c : Catalog) : Side → String → Option Bytes
  | .manifests => fun name => c.manifests.lookup name
  | .snapshots => fun name => c.snapshots.lookup name

/-- What the state of a commit is on disk. -/
def diskOf (s : CommitState) : RepoDisk where
  store := s.repo.store
  dir := catalogFiles s.repo.catalog
  staging := fun side v =>
    (s.repo.catalog.staging.lookup v).map fun dir => stagedFiles dir side
  journal := s.repo.journal

variable {layout : BadouDataLayout} {repoId : RepositoryId}
variable {blake3 : Bytes → ChunkHash} {json : Json} {draws : CommitDraws}
variable {parent : Option VersionId} {manifest : Manifest}
variable {snapshot : Snapshot} {chunks : List (ChunkHash × Bytes)}
variable {s : CommitState} {dir : StagingDir}

/-- Two states with the same repository are the same on disk. -/
theorem diskOf_congr {s' : CommitState} (h : s'.repo = s.repo) :
    diskOf s' = diskOf s := by
  simp only [diskOf, h]

theorem performs_append (opType : JournalOpType) (payload : String)
    (committed : Bool) :
    Performs diskOf (exec layout repoId)
      (CommitBackup.append draws opType payload committed) s
      [journalOp draws opType payload committed] :=
  rfl

/-- Inserting into a directory updates it as a function of the names. -/
theorem lookup_insert_eq_update (files : HashMap String Bytes) (name : String)
    (data : Bytes) :
    (fun k => (files.insert name data).lookup k) =
      Function.update (fun k => files.lookup k) name data := by
  funext k
  rw [HashMap.lookup_insert_of, Function.update_apply]

/-- A catalog that differs from another in the staging directories of one
version. -/
theorem staging_eq_update {c c' : Catalog} {v : Uuid} {dir : Option StagingDir}
    (h : ∀ u, c'.staging.lookup u =
      if u = v then dir else c.staging.lookup u) (side : Side) :
    (fun u => (c'.staging.lookup u).map fun dir => stagedFiles dir side) =
      Function.update
        (fun u => (c.staging.lookup u).map fun dir => stagedFiles dir side) v
        (dir.map fun dir => stagedFiles dir side) := by
  funext u
  rw [h, Function.update_apply]
  split
  · rfl
  · rfl

/-- The effect of a change of the catalog on disk. -/
theorem diskOf_modifyCatalog {f : Catalog → Catalog} {v : Uuid}
    {dir : Option StagingDir}
    (h : ∀ u, (f s.repo.catalog).staging.lookup u =
      if u = v then dir else s.repo.catalog.staging.lookup u) :
    diskOf (stateAfter (CommitBackup.modifyCatalog f) s) =
      { diskOf s with
        dir := catalogFiles (f s.repo.catalog)
        staging := fun side => Function.update ((diskOf s).staging side) v
          (dir.map fun dir => stagedFiles dir side) } := by
  refine RepoDisk.ext rfl rfl ?_ rfl
  funext side
  exact staging_eq_update h side

theorem performs_createStaging
    (h : s.repo.catalog.staging.lookup draws.versionId.uuid = none) :
    Performs diskOf (exec layout repoId)
      (CommitBackup.modifyCatalog fun c =>
        { c with staging := c.staging.insert draws.versionId.uuid .empty }) s
      [.createDir .manifests draws.versionId.uuid,
        .createDir .snapshots draws.versionId.uuid] := by
  rw [Performs, diskOf_modifyCatalog fun u => HashMap.lookup_insert_of _ _ _ _]
  refine RepoDisk.ext rfl rfl ?_ rfl
  funext side
  cases side with
  | manifests =>
      simp [exec, RepoDisk.setStaging, diskOf, h]
      rfl
  | snapshots =>
      simp [exec, RepoDisk.setStaging, diskOf, h]
      rfl

theorem performs_writeManifest (text : Bytes)
    (h : s.repo.catalog.staging.lookup draws.versionId.uuid = some dir) :
    Performs diskOf (exec layout repoId)
      (CommitBackup.modifyCatalog
        (Catalog.writeToStaging draws.versionId.uuid
          (ManifestStore.manifestName manifest.manifestId) text)) s
      [.writeStaged .manifests draws.versionId.uuid
        (ManifestStore.manifestName manifest.manifestId) text] := by
  rw [Performs, diskOf_modifyCatalog (Catalog.lookup_writeToStaging_manifest _ h)]
  refine RepoDisk.ext rfl rfl ?_ rfl
  funext side
  cases side with
  | manifests =>
      simp [exec, RepoDisk.setStaging, diskOf, h, stagedFiles,
        lookup_insert_eq_update]
  | snapshots =>
      simp [exec, RepoDisk.setStaging, diskOf, h, stagedFiles]

theorem performs_stageSnapshot (text : Bytes)
    (h : s.repo.catalog.staging.lookup draws.versionId.uuid = some dir) :
    Performs diskOf (exec layout repoId)
      (CommitBackup.modifyCatalog
        (Catalog.writeToStaging draws.versionId.uuid
          (SnapshotStore.snapshotName draws.snapshotId) text)) s
      [.writeStaged .snapshots draws.versionId.uuid
        (SnapshotStore.snapshotName draws.snapshotId) text] := by
  rw [Performs, diskOf_modifyCatalog (Catalog.lookup_writeToStaging_snapshot _ h)]
  refine RepoDisk.ext rfl rfl ?_ rfl
  funext side
  cases side with
  | manifests =>
      simp [exec, RepoDisk.setStaging, diskOf, h, stagedFiles]
  | snapshots =>
      simp [exec, RepoDisk.setStaging, diskOf, h, stagedFiles,
        lookup_insert_eq_update]

theorem performs_cleanupStaging (v : Uuid) :
    Performs diskOf (exec layout repoId)
      (CommitBackup.modifyCatalog (Catalog.cleanupStaging v)) s
      [.removeDir .manifests v, .removeDir .snapshots v] := by
  rw [Performs, diskOf_modifyCatalog fun u => HashMap.lookup_erase_of _ _ _]
  refine RepoDisk.ext rfl rfl ?_ rfl
  funext side
  cases side with
  | manifests =>
      simp [exec, RepoDisk.setStaging]
  | snapshots =>
      simp [exec, RepoDisk.setStaging]

theorem exec_renameStaged {d : RepoDisk} {side : Side} {v : Uuid}
    {files : String → Option Bytes} {name : String} {data : Bytes}
    (h : d.staging side v = some files) (hfile : files name = some data) :
    exec layout repoId (.renameStaged side v name) d =
      (d.setStaging side v (some (Function.update files name none))).setFile
        side name data := by
  simp only [exec, h, hfile]

/-- Moving the two staged files, if these are all there are. -/
theorem performs_atomicCommit {v : Uuid} {manifestName snapshotName : String}
    {text text' : Bytes}
    (h : s.repo.catalog.staging.lookup v = some
      { manifestStaging := (∅ : HashMap String Bytes).insert manifestName text
        snapshotStaging := (∅ : HashMap String Bytes).insert snapshotName text' }) :
    Performs diskOf (exec layout repoId)
      (CommitBackup.modifyCatalog (Catalog.atomicCommit v)) s
      (atomicCommitOps v manifestName snapshotName) := by
  have hcommit : Catalog.atomicCommit v s.repo.catalog =
      Catalog.cleanupStaging v
        { s.repo.catalog with
          manifests := s.repo.catalog.manifests.insert manifestName text
          snapshots := s.repo.catalog.snapshots.insert snapshotName text' } := by
    simp only [Catalog.atomicCommit, h, Catalog.commitDir_insert_empty]
  have hstaging : ∀ u, (Catalog.atomicCommit v s.repo.catalog).staging.lookup u =
      if u = v then none else s.repo.catalog.staging.lookup u := by
    intro u
    rw [hcommit]
    exact HashMap.lookup_erase_of _ _ _
  have hmanifests : (diskOf s).staging .manifests v =
      some (fun k => ((∅ : HashMap String Bytes).insert manifestName
        text).lookup k) := by
    simp only [diskOf, h, Option.map_some, stagedFiles]
  have hsnapshots : ∀ files,
      (((diskOf s).setStaging .manifests v files).setFile .manifests manifestName
        text).staging .snapshots v =
      some (fun k => ((∅ : HashMap String Bytes).insert snapshotName
        text').lookup k) := by
    intro files
    simp only [RepoDisk.setFile, RepoDisk.setStaging, ne_eq, reduceCtorEq,
      not_false_eq_true, Function.update_of_ne, diskOf, h, Option.map_some,
      stagedFiles]
  rw [Performs, diskOf_modifyCatalog hstaging, hcommit, atomicCommitOps, run_cons,
    exec_renameStaged hmanifests (AList.lookup_insert _), run_cons,
    exec_renameStaged (hsnapshots _) (AList.lookup_insert _)]
  refine RepoDisk.ext rfl ?_ ?_ rfl
  · funext side
    cases side with
    | manifests =>
        simp [exec, RepoDisk.setStaging, RepoDisk.setFile, catalogFiles, diskOf,
          Catalog.cleanupStaging, lookup_insert_eq_update]
    | snapshots =>
        simp [exec, RepoDisk.setStaging, RepoDisk.setFile, catalogFiles, diskOf,
          Catalog.cleanupStaging, lookup_insert_eq_update]
  · funext side
    cases side with
    | manifests =>
        simp [exec, RepoDisk.setStaging, RepoDisk.setFile]
    | snapshots =>
        simp [exec, RepoDisk.setStaging, RepoDisk.setFile]

/-- A snapshot is written under a name of its own and then moved. -/
theorem performs_writeSnapshot {s' : CommitState} {sealedSnapshot : Snapshot}
    {id : Uuid}
    (hrun : (CommitBackup.onCatalog
      (SnapshotStore.writeSnapshot json sealedSnapshot)).run s = .ok id s') :
    Performs diskOf (exec layout repoId)
      (CommitBackup.onCatalog
        (SnapshotStore.writeSnapshot json sealedSnapshot)) s
      (writeSnapshotOps sealedSnapshot.snapshotId
        (json.snapshotToVec sealedSnapshot)) := by
  rw [Performs, (run_eq_ok_iff.mp hrun).2]
  have hcatalog := CommitBackup.ensures_writeSnapshot sealedSnapshot _ _ hrun
  have hrest : s'.repo.store = s.repo.store ∧
      s'.repo.journal = s.repo.journal := by
    rw [← (run_eq_ok_iff.mp hrun).2, CommitBackup.onCatalog, stateAfter_zoom]
    exact ⟨rfl, rfl⟩
  have hwritten : ((diskOf s).setFile .snapshots
      (SnapshotStore.stagingName sealedSnapshot.snapshotId)
      (json.snapshotToVec sealedSnapshot)).dir .snapshots
        (SnapshotStore.stagingName sealedSnapshot.snapshotId) =
      some (json.snapshotToVec sealedSnapshot) := by
    simp [RepoDisk.setFile]
  rw [writeSnapshotOps, run_cons, run_cons, run_nil, exec, exec, hwritten]
  refine RepoDisk.ext ?_ ?_ ?_ ?_
  · exact hrest.1
  · funext side
    cases side with
    | manifests =>
        simp only [diskOf, hcatalog]
        rfl
    | snapshots =>
        funext k
        simp only [diskOf, hcatalog, catalogFiles,
          SnapshotStore.lookup_writeAndRename, RepoDisk.setFile,
          Function.update_self, Function.update_apply]
        split
        · rfl
        · split
          · rfl
          · rfl
  · funext side
    simp only [diskOf, hcatalog]
    rfl
  · exact hrest.2

theorem performs_writeChunks :
    ∀ (chunks : List (ChunkHash × Bytes)) (s : CommitState),
      Performs diskOf (exec layout repoId)
        (CommitBackup.onStore (ChunkStore.writeChunks layout repoId chunks)) s
        (chunks.map fun c => .writeChunk c.1 c.2) := by
  intro chunks
  induction chunks with
  | nil =>
      intro s
      rfl
  | cons c chunks ih =>
      intro s
      have hrest := ih { s with repo := { s.repo with
        store := stateAfter (ChunkStore.writeChunk layout repoId c.1 c.2)
          s.repo.store } }
      rw [Performs, CommitBackup.onStore, stateAfter_zoom,
        ChunkStore.stateAfter_writeChunks] at hrest ⊢
      exact hrest

/-- A change of status does not show on disk. -/
theorem performs_bind_transition {α : Type} {version : Version} {v : VersionId}
    {target : VersionStatus} {f : Version → CommitBackup.CommitM α}
    {ops : List FsOp}
    (hversion : s.versions.versions.lookup v = some version)
    (hok : version.status.canTransitionTo target = true)
    (hf : ∀ a s', s'.versions.versions.lookup v =
        some { version with status := target } → s'.repo = s.repo →
      Performs diskOf (exec layout repoId) (f a) s' ops) :
    Performs diskOf (exec layout repoId)
      (CommitBackup.onVersions (VersionOps.transition v target) >>= f) s ops := by
  obtain ⟨a, s', hrun, hlookup, hrepo⟩ :=
    CommitBackup.returns_transition target hversion hok
  exact performs_bind_silent hrun (diskOf_congr hrepo) (hf a s' hlookup hrepo)

/-- The operations of sealing a verified commit. -/
theorem performs_sealCommit {version version' : Version}
    (hversion : s.versions.versions.lookup draws.versionId = some version')
    (hverifying : version'.status = .verifying)
    (hsnapshot : version.snapshotId = draws.snapshotId)
    (hstaged : s.repo.catalog.staging.lookup draws.versionId.uuid = some
      { manifestStaging := (∅ : HashMap String Bytes).insert
          (ManifestStore.manifestName manifest.manifestId)
          (json.manifestToVec manifest)
        snapshotStaging := ∅ }) :
    Performs diskOf (exec layout repoId)
      (CommitBackup.sealCommit blake3 json draws version manifest snapshot) s
      (sealOps blake3 json draws manifest snapshot) := by
  unfold CommitBackup.sealCommit sealOps publishOps
  rw [hsnapshot]
  refine performs_bind_cons rfl (performs_append _ _ _) ?_
  refine performs_bind_transition hversion (by rw [hverifying]; rfl) ?_
  intro _ s₂ hcommitting hrepo₂
  have hstaged₂ : s₂.repo.catalog.staging.lookup draws.versionId.uuid = some
      { manifestStaging := (∅ : HashMap String Bytes).insert
          (ManifestStore.manifestName manifest.manifestId)
          (json.manifestToVec manifest)
        snapshotStaging := ∅ } := by
    rw [hrepo₂]
    exact hstaged
  refine performs_bind_cons rfl (performs_stageSnapshot _ hstaged₂) ?_
  refine performs_bind rfl (performs_atomicCommit
    ((Catalog.lookup_writeToStaging_snapshot _ hstaged₂ _).trans (if_pos rfl))) ?_
  refine performs_bind_cons rfl (performs_append _ _ _) ?_
  refine performs_bind_transition hcommitting rfl ?_
  intro _ s₃ _ _
  refine performs_bind rfl (performs_writeSnapshot rfl) ?_
  refine performs_bind_cons rfl (performs_append _ _ _) ?_
  exact performs_pure _ _

theorem performs_failCommit (reason : String) :
    Performs diskOf (exec layout repoId) (CommitBackup.failCommit draws reason) s
      ([.removeDir .manifests draws.versionId.uuid,
        .removeDir .snapshots draws.versionId.uuid] ++
        [journalOp draws .recovery reason false]) := by
  unfold CommitBackup.failCommit
  exact performs_bind rfl (performs_cleanupStaging _) (performs_append _ _ _)

/-- The operations after the chunks have been written. -/
theorem performs_finishCommit {version version' : Version}
    (hversion : s.versions.versions.lookup draws.versionId = some version')
    (hwriting : version'.status = .writing)
    (hsnapshot : version.snapshotId = draws.snapshotId)
    (hempty : s.repo.catalog.staging.lookup draws.versionId.uuid =
      some .empty) :
    Performs diskOf (exec layout repoId)
      (CommitBackup.finishCommit blake3 json draws version manifest snapshot
        chunks) s
      (.writeStaged .manifests draws.versionId.uuid
          (ManifestStore.manifestName manifest.manifestId)
          (json.manifestToVec manifest) ::
        journalOp draws .commitStep "chunks_written" false ::
        endOps blake3 json draws manifest snapshot
          (CommitBackup.verifyChunks blake3 s.repo.store chunks)) := by
  unfold CommitBackup.finishCommit
  refine performs_bind_cons rfl (performs_writeManifest _ hempty) ?_
  refine performs_bind_cons rfl (performs_append _ _ _) ?_
  refine performs_bind_transition hversion (by rw [hwriting]; rfl) ?_
  intro _ s₁ hverifying hrepo
  refine performs_bind_silent rfl rfl ?_
  have hstore : s₁.repo.store = s.repo.store := by
    rw [hrepo]
  have hstaged : s₁.repo.catalog.staging.lookup draws.versionId.uuid = some
      { manifestStaging := (∅ : HashMap String Bytes).insert
          (ManifestStore.manifestName manifest.manifestId)
          (json.manifestToVec manifest)
        snapshotStaging := ∅ } := by
    rw [hrepo]
    exact (Catalog.lookup_writeToStaging_manifest _ hempty _).trans (if_pos rfl)
  rw [hstore]
  cases CommitBackup.verifyChunks blake3 s.repo.store chunks with
  | error e =>
      exact performs_bind_of_error rfl rfl
  | ok verified =>
      refine performs_bind_silent rfl rfl ?_
      cases verified with
      | false =>
          exact performs_failCommit "chunk hash verification failed"
      | true =>
          exact performs_sealCommit hverifying rfl hsnapshot hstaged

/-- A commit whose staging directories are there already only reports. -/
theorem performs_commitBackup_of_taken
    (hparent : ∀ p ∈ parent, (s.versions.versions.lookup p).isSome)
    (hstaging : s.repo.catalog.staging.lookup draws.versionId.uuid = some dir) :
    Performs diskOf (exec layout repoId)
      (CommitBackup.commitBackup layout blake3 json draws repoId parent manifest
        snapshot chunks) s [journalOp draws .commitStep "start" false] := by
  obtain ⟨version, ops, hcreate, -⟩ :=
    VersionOps.run_createVersion hparent draws.now draws.versionId
      draws.snapshotId repoId
  unfold CommitBackup.commitBackup CommitBackup.beginCommit
  rw [bind_assoc]
  refine performs_bind_silent (CommitBackup.run_onVersions hcreate) rfl ?_
  rw [bind_assoc]
  refine performs_bind_cons rfl (performs_append _ _ _) ?_
  rw [bind_assoc]
  refine performs_bind_silent rfl rfl ?_
  simp only [Catalog.run_createStaging_taken hstaging]
  exact performs_pure _ _

/-- A commit whose parent is not there does nothing. -/
theorem performs_commitBackup_of_unknown {p : VersionId}
    (hparent : s.versions.versions.lookup p = none) :
    Performs diskOf (exec layout repoId)
      (CommitBackup.commitBackup layout blake3 json draws repoId (some p) manifest
        snapshot chunks) s [] := by
  have hcreate := VersionOps.run_createVersion_error hparent draws.now
    draws.versionId draws.snapshotId repoId
  unfold CommitBackup.commitBackup CommitBackup.beginCommit
  rw [bind_assoc]
  exact performs_bind_of_error (CommitBackup.run_onVersions_error hcreate) rfl

/-- A commit that is admitted creates its directories and goes on. -/
theorem performs_commitBackup_of_admits
    (h : CommitBackup.Admits s parent draws.versionId) :
    Performs diskOf (exec layout repoId)
      (CommitBackup.commitBackup layout blake3 json draws repoId parent manifest
        snapshot chunks) s
      (journalOp draws .commitStep "start" false ::
        writeOps layout repoId blake3 json draws manifest snapshot chunks
          s.repo.store) := by
  obtain ⟨_, s₁, hbegin, version, version', rfl, hversion, hwriting, hstore,
    hsnapshot, hcatalog, hjournal⟩ := CommitBackup.returns_beginCommit repoId h
  have hempty : s₁.repo.catalog.staging.lookup draws.versionId.uuid =
      some .empty := by
    rw [hcatalog]
    exact AList.lookup_insert _
  have hfirst : Performs diskOf (exec layout repoId)
      (CommitBackup.beginCommit draws repoId parent) s
      [journalOp draws .commitStep "start" false,
        .createDir .manifests draws.versionId.uuid,
        .createDir .snapshots draws.versionId.uuid] := by
    rw [Performs, (run_eq_ok_iff.mp hbegin).2]
    refine Eq.trans ?_ (performs_createStaging
      (s := stateAfter (CommitBackup.append draws .commitStep "start" false) s)
      h.2)
    simp only [diskOf, hstore, hcatalog, hjournal]
    rfl
  have hwrites := ChunkStore.run_writeChunks layout repoId chunks s₁.repo.store
  rw [← (run_eq_ok_iff.mp hwrites).2] at hwrites
  unfold CommitBackup.commitBackup
  refine performs_bind hbegin hfirst ?_
  refine performs_bind (CommitBackup.run_onStore hwrites)
    (performs_writeChunks _ _) ?_
  rw [← hstore]
  exact performs_finishCommit hversion hwriting hsnapshot hempty

/-- The operations of a commit are all it does to the disk. -/
theorem performs_commitBackup :
    Performs diskOf (exec layout repoId)
      (CommitBackup.commitBackup layout blake3 json draws repoId parent manifest
        snapshot chunks) s
      (commitOps layout repoId blake3 json draws parent manifest snapshot chunks
        s) := by
  unfold commitOps
  cases hany : parent.any fun p => (s.versions.versions.lookup p).isNone with
  | true =>
      cases parent with
      | none =>
          simp at hany
      | some p =>
          exact performs_commitBackup_of_unknown (by simpa using hany)
  | false =>
      have hparent : ∀ p ∈ parent, (s.versions.versions.lookup p).isSome := by
        rintro p rfl
        simpa [Option.isSome_iff_ne_none] using hany
      simp only [Bool.false_eq_true, if_false]
      cases hstaging : s.repo.catalog.staging.lookup draws.versionId.uuid with
      | some dir =>
          simpa using performs_commitBackup_of_taken hparent hstaging
      | none =>
          simpa using performs_commitBackup_of_admits ⟨hparent, hstaging⟩

end Refinement

section Crash

/-- Operations that write into or move files into the directories. -/
def FsOp.movesFile : FsOp → Bool
  | .renameStaged .. => true
  | .write .. => true
  | .rename .. => true
  | _ => false

variable {layout : BadouDataLayout} {repoId : RepositoryId}
variable {blake3 : Bytes → ChunkHash} {json : Json} {draws : CommitDraws}
variable {parent : Option VersionId} {manifest : Manifest}
variable {snapshot : Snapshot} {chunks : List (ChunkHash × Bytes)}
variable {s : CommitState}

theorem dir_exec {op : FsOp} (h : op.movesFile = false) (d : RepoDisk) :
    (exec layout repoId op d).dir = d.dir := by
  cases op with
  | renameStaged side v name => cases h
  | write side name data => cases h
  | rename side source target => cases h
  | _ => rfl

/-- A list of operations none of which moves a file. -/
def Quiet (ops : List FsOp) : Prop :=
  ∀ op ∈ ops, op.movesFile = false

theorem dir_run {ops : List FsOp} (h : Quiet ops) (d : RepoDisk) :
    (run (exec layout repoId) ops d).dir = d.dir :=
  run_frame _ RepoDisk.dir (fun op hop d => dir_exec (h op hop) d) d

/-- Cleaning up leaves the directories alone. -/
theorem dir_cleanupIncomplete {d d' : RepoDisk}
    (h : CleanupIncomplete layout repoId d d') : d'.dir = d.dir := by
  obtain ⟨pending, -, rfl⟩ := h
  refine List.foldlRecOn pending _ (motive := fun d' : RepoDisk => d'.dir = d.dir)
    rfl ?_
  intro d' hd' v _
  rw [cleanupStaging, dir_run _ _, hd']
  simp [Quiet, FsOp.movesFile]

/-- The operations of a commit before anything is published. -/
def stageOps
    (blake3 : Bytes → ChunkHash) (json : Json) (draws : CommitDraws)
    (manifest : Manifest) (snapshot : Snapshot)
    (chunks : List (ChunkHash × Bytes)) : List FsOp :=
  journalOp draws .commitStep "start" false ::
  .createDir .manifests draws.versionId.uuid ::
  .createDir .snapshots draws.versionId.uuid ::
  (chunks.map (fun c => .writeChunk c.1 c.2) ++
    [.writeStaged .manifests draws.versionId.uuid
        (ManifestStore.manifestName manifest.manifestId)
        (json.manifestToVec manifest),
      journalOp draws .commitStep "chunks_written" false,
      journalOp draws .verifyStep "verified" false,
      .writeStaged .snapshots draws.versionId.uuid
        (SnapshotStore.snapshotName draws.snapshotId)
        (json.snapshotToVec (CommitBackup.committedSnapshot blake3 json draws
          manifest snapshot .writing))])

theorem quiet_stageOps :
    Quiet (stageOps blake3 json draws manifest snapshot chunks) := by
  intro op hop
  simp only [stageOps, List.mem_cons, List.mem_append, List.mem_map,
    List.not_mem_nil, or_false] at hop
  rcases hop with rfl | rfl | rfl | ⟨c, -, rfl⟩ | rfl | rfl | rfl | rfl
  all_goals rfl

/-- Without a successful verification nothing is published. -/
theorem quiet_endOps {result : Except ChunkStoreError Bool}
    (h : result ≠ .ok true) :
    Quiet (endOps blake3 json draws manifest snapshot result) := by
  intro op hop
  match result, h with
  | .error e, _ => cases hop
  | .ok false, _ =>
      simp only [endOps, List.mem_cons, List.not_mem_nil, or_false] at hop
      rcases hop with rfl | rfl | rfl
      all_goals rfl

/-- A commit publishes after all its staging if it succeeds, and otherwise
nothing at all. -/
theorem commitOps_cases :
    (commitOps layout repoId blake3 json draws parent manifest snapshot chunks s =
      stageOps blake3 json draws manifest snapshot chunks ++
        publishOps blake3 json draws manifest snapshot ∧
      CommitBackup.Admits s parent draws.versionId ∧
      CommitBackup.verifyChunks blake3 (stateAfter
        (ChunkStore.writeChunks layout repoId chunks) s.repo.store) chunks =
          .ok true) ∨
    Quiet (commitOps layout repoId blake3 json draws parent manifest snapshot
      chunks s) := by
  unfold commitOps
  by_cases hparent :
      (parent.any fun p => (s.versions.versions.lookup p).isNone) = true
  · rw [if_pos hparent]
    exact Or.inr fun op hop => by cases hop
  rw [if_neg hparent]
  cases hstaging : s.repo.catalog.staging.lookup draws.versionId.uuid with
  | some dir =>
      refine Or.inr fun op hop => ?_
      cases List.mem_singleton.mp hop
      rfl
  | none =>
      simp only [Option.isSome_none, Bool.false_eq_true, if_false, writeOps]
      by_cases hverified : CommitBackup.verifyChunks blake3 (stateAfter
          (ChunkStore.writeChunks layout repoId chunks) s.repo.store) chunks =
        .ok true
      · have hknown : ∀ p ∈ parent, (s.versions.versions.lookup p).isSome := by
          simpa [Option.any_eq_false, Option.isSome_iff_ne_none] using hparent
        refine Or.inl ⟨?_, ⟨hknown, hstaging⟩, hverified⟩
        rw [hverified]
        simp only [endOps, sealOps, stageOps, List.cons_append,
          List.append_assoc, List.nil_append]
      · refine Or.inr fun op hop => ?_
        simp only [List.mem_cons, List.mem_append, List.mem_map] at hop
        rcases hop with rfl | rfl | rfl | ⟨c, -, rfl⟩ | rfl | rfl | hop
        all_goals first | rfl | exact quiet_endOps hverified op hop

/-- What stands among the snapshots after a commit was there before or is the
sealed snapshot. -/
theorem snapshots_commitBackup {name : String} {data : Bytes}
    (h : (stateAfter (CommitBackup.commitBackup layout blake3 json draws repoId
      parent manifest snapshot chunks) s).repo.catalog.snapshots.lookup name =
        some data) :
    (name = SnapshotStore.snapshotName draws.snapshotId ∧
      data = json.snapshotToVec (CommitBackup.committedSnapshot blake3 json draws
        manifest snapshot .sealed)) ∨
    s.repo.catalog.snapshots.lookup name = some data := by
  rcases commitOps_cases with ⟨-, hsuccess⟩ | hquiet
  · obtain ⟨v, id, hout⟩ := CommitBackup.outcome_commitBackup.mpr hsuccess
    obtain ⟨-, -, hpublishes⟩ := CommitBackup.publishes_of_success hout
    rw [hpublishes.snapshots] at h
    split at h
    next hname => exact Or.inl ⟨hname, (Option.some.inj h).symm⟩
    · split at h
      · cases h
      · exact Or.inr h
  · have hdir : catalogFiles (stateAfter (CommitBackup.commitBackup layout blake3
        json draws repoId parent manifest snapshot chunks) s).repo.catalog =
          catalogFiles s.repo.catalog :=
      (congrArg RepoDisk.dir performs_commitBackup).trans (dir_run hquiet _)
    exact Or.inr ((congrFun (congrFun hdir .snapshots) name).symm.trans h)

/-- When a commit starts to publish, its files are staged. -/
theorem staging_stageOps
    (h : s.repo.catalog.staging.lookup draws.versionId.uuid = none) :
    (run (exec layout repoId)
        (stageOps blake3 json draws manifest snapshot chunks)
        (diskOf s)).staging .manifests draws.versionId.uuid =
      some (Function.update (fun _ => none)
        (ManifestStore.manifestName manifest.manifestId)
        (some (json.manifestToVec manifest))) ∧
    (run (exec layout repoId)
        (stageOps blake3 json draws manifest snapshot chunks)
        (diskOf s)).staging .snapshots draws.versionId.uuid =
      some (Function.update (fun _ => none)
        (SnapshotStore.snapshotName draws.snapshotId)
        (some (json.snapshotToVec (CommitBackup.committedSnapshot blake3 json
          draws manifest snapshot .writing)))) := by
  have hchunks : ∀ d : RepoDisk, (run (exec layout repoId)
      (chunks.map fun c => .writeChunk c.1 c.2) d).staging = d.staging := by
    intro d
    refine run_frame _ RepoDisk.staging ?_ d
    intro op hop d
    obtain ⟨c, -, rfl⟩ := List.mem_map.mp hop
    rfl
  have hfree : ∀ side, (diskOf s).staging side draws.versionId.uuid = none := by
    intro side
    simp [diskOf, h]
  simp [stageOps, run_append, exec, journalOp, RepoDisk.setStaging, hchunks,
    hfree]

/-- The staging directories of other versions are left alone. -/
theorem staging_stageOps_of_ne {u : Uuid} (h : u ≠ draws.versionId.uuid)
    (side : Side) (d : RepoDisk) :
    (run (exec layout repoId)
        (stageOps blake3 json draws manifest snapshot chunks) d).staging side u =
      d.staging side u := by
  refine run_frame _ (fun d => d.staging side u) ?_ d
  intro op hop d
  simp only [stageOps, List.mem_cons, List.mem_append, List.mem_map,
    List.not_mem_nil, or_false] at hop
  cases side with
  | _ =>
      rcases hop with rfl | rfl | rfl | ⟨c, -, rfl⟩ | rfl | rfl | rfl | rfl
      all_goals simp [exec, journalOp, RepoDisk.setStaging, h]

/-- The committed files as they stand in the directories. -/
def published (manifest : Manifest) (draws : CommitDraws) (d : RepoDisk) :
    Option Bytes × Option Bytes :=
  (d.dir .manifests (ManifestStore.manifestName manifest.manifestId),
    d.dir .snapshots (SnapshotStore.snapshotName draws.snapshotId))

/-- The manifest is moved to its place. -/
def manifestMove (manifest : Manifest) (draws : CommitDraws) : FsOp :=
  .renameStaged .manifests draws.versionId.uuid
    (ManifestStore.manifestName manifest.manifestId)

/-- The sealed snapshot is moved to its place. -/
def sealedMove (draws : CommitDraws) : FsOp :=
  .rename .snapshots (SnapshotStore.stagingName draws.snapshotId)
    (SnapshotStore.snapshotName draws.snapshotId)

theorem published_exec_of_quiet {op : FsOp} (h : op.movesFile = false)
    (d : RepoDisk) :
    published manifest draws (exec layout repoId op d) =
      published manifest draws d := by
  simp only [published, dir_exec h]

theorem published_manifestMove {d : RepoDisk} {files : String → Option Bytes}
    {text : Bytes}
    (hdir : d.staging .manifests draws.versionId.uuid = some files)
    (hfile : files (ManifestStore.manifestName manifest.manifestId) =
      some text) :
    published manifest draws
        (exec layout repoId (manifestMove manifest draws) d) =
      (some text, (published manifest draws d).2) ∧
    (exec layout repoId (manifestMove manifest draws) d).staging .snapshots =
      d.staging .snapshots := by
  rw [manifestMove, exec_renameStaged hdir hfile]
  simp [published, RepoDisk.setFile, RepoDisk.setStaging]

theorem published_snapshotMove {d : RepoDisk} {files : String → Option Bytes}
    {text : Bytes}
    (hdir : d.staging .snapshots draws.versionId.uuid = some files)
    (hfile : files (SnapshotStore.snapshotName draws.snapshotId) =
      some text) :
    published manifest draws
        (exec layout repoId (.renameStaged .snapshots draws.versionId.uuid
          (SnapshotStore.snapshotName draws.snapshotId)) d) =
      ((published manifest draws d).1, some text) := by
  rw [exec_renameStaged hdir hfile]
  simp [published, RepoDisk.setFile, RepoDisk.setStaging]

/-- Writing the sealed snapshot beside its place publishes nothing. -/
theorem published_write (d : RepoDisk) (data : Bytes) :
    published manifest draws
        (exec layout repoId (.write .snapshots
          (SnapshotStore.stagingName draws.snapshotId) data) d) =
      published manifest draws d := by
  have hne : SnapshotStore.snapshotName draws.snapshotId ≠
      SnapshotStore.stagingName draws.snapshotId := by
    intro heq
    have hlen := congrArg String.length heq
    simp [SnapshotStore.stagingName] at hlen
  simp [published, exec, RepoDisk.setFile, hne]

theorem published_sealedMove {d : RepoDisk} {data : Bytes}
    (hdir : d.dir .snapshots (SnapshotStore.stagingName draws.snapshotId) =
      some data) :
    published manifest draws (exec layout repoId (sealedMove draws) d) =
      ((published manifest draws d).1, some data) := by
  simp only [sealedMove, exec, hdir]
  simp [published, RepoDisk.setFile]

theorem publishOps_eq :
    publishOps blake3 json draws manifest snapshot =
      [manifestMove manifest draws,
        .renameStaged .snapshots draws.versionId.uuid
          (SnapshotStore.snapshotName draws.snapshotId),
        .removeDir .manifests draws.versionId.uuid,
        .removeDir .snapshots draws.versionId.uuid,
        journalOp draws .commitStep "staging_committed" false,
        .write .snapshots (SnapshotStore.stagingName draws.snapshotId)
          (json.snapshotToVec (CommitBackup.committedSnapshot blake3 json draws
            manifest snapshot .sealed)),
        sealedMove draws,
        journalOp draws .commitStep "sealed" true] :=
  rfl

/-- Among the last operations of a commit, which moves have been made. -/
theorem moves_publishOps (k : Nat) :
    (manifestMove manifest draws ∈
        (publishOps blake3 json draws manifest snapshot).take k ↔ 1 ≤ k) ∧
      (sealedMove draws ∈
        (publishOps blake3 json draws manifest snapshot).take k ↔ 7 ≤ k) := by
  rw [publishOps_eq]
  match k with
  | 0 | 1 | 2 | 3 | 4 | 5 | 6 | 7 =>
      simp [manifestMove, sealedMove, journalOp]
  | k + 8 =>
      rw [List.take_of_length_le (by simp)]
      simp

/-- What is published after some of the last operations of a commit. -/
theorem published_publishOps {d : RepoDisk} {text writing : Bytes}
    (hmanifest : d.staging .manifests draws.versionId.uuid =
      some (Function.update (fun _ => none)
        (ManifestStore.manifestName manifest.manifestId) (some text)))
    (hsnapshot : d.staging .snapshots draws.versionId.uuid =
      some (Function.update (fun _ => none)
        (SnapshotStore.snapshotName draws.snapshotId) (some writing)))
    (hnone : published manifest draws d = (none, none)) (k : Nat) :
    published manifest draws (run (exec layout repoId)
        ((publishOps blake3 json draws manifest snapshot).take k) d) =
      match k with
      | 0 => (none, none)
      | 1 => (some text, none)
      | 2 | 3 | 4 | 5 | 6 => (some text, some writing)
      | _ => (some text, some (json.snapshotToVec
          (CommitBackup.committedSnapshot blake3 json draws manifest snapshot
            .sealed))) := by
  let d₁ := exec layout repoId (manifestMove manifest draws) d
  let d₂ := exec layout repoId (.renameStaged .snapshots draws.versionId.uuid
    (SnapshotStore.snapshotName draws.snapshotId)) d₁
  -- The staging directories are removed and a record is written.
  let d₅ := run (exec layout repoId)
    [.removeDir .manifests draws.versionId.uuid,
      .removeDir .snapshots draws.versionId.uuid,
      journalOp draws .commitStep "staging_committed" false] d₂
  let data := json.snapshotToVec (CommitBackup.committedSnapshot blake3 json
    draws manifest snapshot .sealed)
  let d₆ := exec layout repoId
    (.write .snapshots (SnapshotStore.stagingName draws.snapshotId) data) d₅
  obtain ⟨h₁, hstaging₁⟩ : published manifest draws d₁ = (some text, none) ∧
      d₁.staging .snapshots = d.staging .snapshots := by
    simpa [hnone] using
      published_manifestMove hmanifest (Function.update_self _ _ _)
  have h₂ : published manifest draws d₂ = (some text, some writing) := by
    rw [published_snapshotMove ((congrFun hstaging₁ _).trans hsnapshot)
      (Function.update_self _ _ _), h₁]
  have hquiet : ∀ ops, Quiet ops →
      published manifest draws (run (exec layout repoId) ops d₂) =
        (some text, some writing) := by
    intro ops hops
    rw [← h₂, published, published, dir_run hops]
  have h₅ : published manifest draws d₅ = (some text, some writing) :=
    hquiet _ (by simp [Quiet, FsOp.movesFile, journalOp])
  have h₆ : published manifest draws d₆ = (some text, some writing) :=
    (published_write d₅ data).trans h₅
  have h₇ : published manifest draws
      (exec layout repoId (sealedMove draws) d₆) = (some text, some data) := by
    have hwritten : d₆.dir .snapshots
        (SnapshotStore.stagingName draws.snapshotId) = some data := by
      simp [d₆, exec, RepoDisk.setFile]
    rw [published_sealedMove hwritten, h₆]
  rw [publishOps_eq]
  match k with
  | 0 => exact hnone
  | 1 => exact h₁
  | 2 => exact h₂
  | 3 =>
      exact hquiet [.removeDir .manifests draws.versionId.uuid]
        (by simp [Quiet, FsOp.movesFile])
  | 4 =>
      exact hquiet [.removeDir .manifests draws.versionId.uuid,
        .removeDir .snapshots draws.versionId.uuid]
        (by simp [Quiet, FsOp.movesFile])
  | 5 => exact h₅
  | 6 => exact h₆
  | 7 =>
      simp only [List.take_succ_cons, List.take_zero, run_cons, run_nil]
      exact h₇
  | k + 8 =>
      have hjournal : (journalOp draws .commitStep "sealed" true).movesFile =
          false := rfl
      rw [List.take_of_length_le (by simp)]
      simp only [run_cons, run_nil]
      rw [published_exec_of_quiet hjournal]
      exact h₇

/-- The text of the snapshot is read as the snapshot. -/
def ReadsBack (json : Json) (snapshot : Snapshot) : Prop :=
  json.snapshotFromSlice (json.snapshotToVec snapshot) = .ok snapshot

/-- Both the manifest and the sealed snapshot of the version stand in their
directories, or neither is there. -/
def Atomic (json : Json) (manifest : Manifest) (draws : CommitDraws)
    (d : RepoDisk) : Prop :=
  let manifestFile :=
    d.dir .manifests (ManifestStore.manifestName manifest.manifestId)
  let snapshotFile :=
    d.dir .snapshots (SnapshotStore.snapshotName draws.snapshotId)
  (manifestFile = some (json.manifestToVec manifest) ∧
    ∃ data sealedSnapshot, snapshotFile = some data ∧
      json.snapshotFromSlice data = .ok sealedSnapshot ∧
      sealedSnapshot.status = .sealed) ∨
  (manifestFile = none ∧ snapshotFile = none)

theorem atomic_iff_published {d : RepoDisk} :
    Atomic json manifest draws d ↔
      ((published manifest draws d).1 = some (json.manifestToVec manifest) ∧
        ∃ data sealedSnapshot, (published manifest draws d).2 = some data ∧
          json.snapshotFromSlice data = .ok sealedSnapshot ∧
          sealedSnapshot.status = .sealed) ∨
      published manifest draws d = (none, none) := by
  rw [Atomic, published, Prod.mk.injEq]

/-- Some of the last operations of a commit leave an atomic state if they are
none, or all up to the move of the sealed snapshot. -/
theorem atomic_publishOps_iff {d : RepoDisk}
    (hmanifest : d.staging .manifests draws.versionId.uuid =
      some (Function.update (fun _ => none)
        (ManifestStore.manifestName manifest.manifestId)
        (some (json.manifestToVec manifest))))
    (hsnapshot : d.staging .snapshots draws.versionId.uuid =
      some (Function.update (fun _ => none)
        (SnapshotStore.snapshotName draws.snapshotId)
        (some (json.snapshotToVec (CommitBackup.committedSnapshot blake3 json
          draws manifest snapshot .writing)))))
    (hnone : published manifest draws d = (none, none))
    (hwriting : ReadsBack json (CommitBackup.committedSnapshot blake3 json draws
      manifest snapshot .writing))
    (hsealed : ReadsBack json (CommitBackup.committedSnapshot blake3 json draws
      manifest snapshot .sealed)) (k : Nat) :
    Atomic json manifest draws (run (exec layout repoId)
        ((publishOps blake3 json draws manifest snapshot).take k) d) ↔
      k = 0 ∨ 7 ≤ k := by
  rw [atomic_iff_published, published_publishOps hmanifest hsnapshot hnone]
  match k with
  | 0 => simp
  | 1 => simp
  | 2 | 3 | 4 | 5 | 6 =>
      -- The snapshot is there, but it is still being written.
      unfold ReadsBack at hwriting
      simp [hwriting]
  | k + 7 =>
      unfold ReadsBack at hsealed
      simp [hsealed]

/-- A commit that crashes after any number of its operations, with the
clean-up after it, is atomic exactly if the crash does not fall between the
move of the manifest and the move of the sealed snapshot. -/
theorem atomic_after_crash_iff
    (hmanifest : s.repo.catalog.manifests.lookup
      (ManifestStore.manifestName manifest.manifestId) = none)
    (hsnapshot : s.repo.catalog.snapshots.lookup
      (SnapshotStore.snapshotName draws.snapshotId) = none)
    (hwriting : ReadsBack json (CommitBackup.committedSnapshot blake3 json draws
      manifest snapshot .writing))
    (hsealed : ReadsBack json (CommitBackup.committedSnapshot blake3 json draws
      manifest snapshot .sealed))
    (n : Nat) {d : RepoDisk}
    (hcleanup : CleanupIncomplete layout repoId (run (exec layout repoId)
      ((commitOps layout repoId blake3 json draws parent manifest snapshot chunks
        s).take n) (diskOf s)) d) :
    Atomic json manifest draws d ↔
      ¬ (manifestMove manifest draws ∈ (commitOps layout repoId blake3 json draws
          parent manifest snapshot chunks s).take n ∧
        sealedMove draws ∉ (commitOps layout repoId blake3 json draws parent
          manifest snapshot chunks s).take n) := by
  have hnone : published manifest draws (diskOf s) = (none, none) := by
    simp only [published, diskOf, catalogFiles, hmanifest, hsnapshot]
  have hquiet : ∀ ops, Quiet ops →
      Atomic json manifest draws (run (exec layout repoId) ops (diskOf s)) ∧
        manifestMove manifest draws ∉ ops := by
    intro ops hops
    refine ⟨atomic_iff_published.mpr (Or.inr ?_), ?_⟩
    · rw [published, dir_run hops]
      exact hnone
    · intro hmem
      cases hops _ hmem
  rw [Atomic, dir_cleanupIncomplete hcleanup, ← Atomic]
  rcases commitOps_cases with ⟨hops, ⟨-, hstaging⟩, -⟩ | hops
  · obtain ⟨hmanifest, hsnapshot⟩ := staging_stageOps hstaging
    have hstaged : published manifest draws (run (exec layout repoId)
        (stageOps blake3 json draws manifest snapshot chunks) (diskOf s)) =
          (none, none) := by
      rw [published, dir_run quiet_stageOps]
      exact hnone
    rw [hops, List.take_append]
    by_cases hn : n ≤ (stageOps blake3 json draws manifest snapshot chunks).length
    · obtain ⟨hatomic, hmoved⟩ := hquiet
        ((stageOps blake3 json draws manifest snapshot chunks).take n)
        fun op hop => quiet_stageOps op (List.mem_of_mem_take hop)
      rw [Nat.sub_eq_zero_of_le hn, List.take_zero, List.append_nil]
      exact iff_of_true hatomic fun h => hmoved h.1
    · have hpositive : n - (stageOps blake3 json draws manifest snapshot
          chunks).length ≠ 0 := by
        omega
      have hunmoved : sealedMove draws ∉
          stageOps blake3 json draws manifest snapshot chunks := by
        intro hmem
        cases quiet_stageOps _ hmem
      rw [List.take_of_length_le (le_of_not_ge hn), run_append,
        atomic_publishOps_iff hmanifest hsnapshot hstaged hwriting hsealed,
        List.mem_append, List.mem_append, (moves_publishOps _).1,
        (moves_publishOps _).2]
      simp only [hpositive, hunmoved, false_or]
      omega
  · obtain ⟨hatomic, hmoved⟩ := hquiet _ fun op hop => hops op
      (List.mem_of_mem_take hop)
    exact iff_of_true hatomic fun h => hmoved h.1

end Crash

section Example

open ManifestRead

/-- The snapshot of an empty directory as it is sealed. -/
def sealedEmpty : Snapshot :=
  { emptySnapshot with
    snapshotId := BitVec.ofNat 128 4
    verifyInfo :=
      { verified := true, verifiedAt := some 0
        checksum := some emptyManifestHash.toHex }
    status := .sealed }

def crashJson : Json :=
  Json.withReaders
    (fun _ => .error "EOF while parsing a value at line 1 column 0")
    (Json.readStatus sealedEmpty)

def crashDraws : CommitDraws where
  now := 0
  versionId := ⟨BitVec.ofNat 128 3⟩
  snapshotId := BitVec.ofNat 128 4

theorem readsBack_crashJson (status : SnapshotStatus) :
    ReadsBack crashJson (CommitBackup.committedSnapshot
      (fun _ => emptyManifestHash) crashJson crashDraws emptyManifest
      emptySnapshot status) := by
  have hsnapshot : CommitBackup.committedSnapshot (fun _ => emptyManifestHash)
      crashJson crashDraws emptyManifest emptySnapshot status =
        { sealedEmpty with status := status } :=
    rfl
  rw [ReadsBack, hsnapshot, crashJson, Json.withReaders_snapshotFromSlice,
    Json.withReaders_snapshotToVec]
  exact Json.readStatus_utf8_snapshot sealedEmpty status

/-- The operations of committing the empty manifest to a new repository. -/
def emptyOps : List FsOp :=
  commitOps ⟨"/data"⟩ ⟨1#128⟩ (fun _ => emptyManifestHash) crashJson crashDraws
    none emptyManifest emptySnapshot [] newRepository

/-- The disk if that commit is cut off after the move of the manifest. -/
def emptyCrash : RepoDisk :=
  run (exec ⟨"/data"⟩ ⟨1#128⟩) (emptyOps.take 8) (diskOf newRepository)

theorem emptyOps_take :
    emptyOps.take 8 =
      stageOps (fun _ => emptyManifestHash) crashJson crashDraws emptyManifest
        emptySnapshot [] ++ [manifestMove emptyManifest crashDraws] :=
  rfl

/-- Cleaning up removes the two directories of the version. -/
theorem cleanup_emptyCrash :
    CleanupIncomplete ⟨"/data"⟩ ⟨1#128⟩ emptyCrash
      (cleanupStaging ⟨"/data"⟩ ⟨1#128⟩ emptyCrash
        crashDraws.versionId.uuid) := by
  refine ⟨[crashDraws.versionId.uuid], ?_, rfl⟩
  intro u
  have hmanifest : (run (exec ⟨"/data"⟩ ⟨1#128⟩)
      (stageOps (fun _ => emptyManifestHash) crashJson crashDraws emptyManifest
        emptySnapshot []) (diskOf newRepository)).staging .manifests
          crashDraws.versionId.uuid =
      some (Function.update (fun _ => none)
        (ManifestStore.manifestName emptyManifest.manifestId)
        (some (crashJson.manifestToVec emptyManifest))) :=
    (staging_stageOps rfl).1
  rw [emptyCrash, emptyOps_take, run_append, run_cons, run_nil, manifestMove,
    exec_renameStaged hmanifest (Function.update_self _ _ _),
    List.mem_singleton]
  by_cases hu : u = crashDraws.versionId.uuid
  · simp [RepoDisk.setFile, RepoDisk.setStaging, hu]
  · simp only [RepoDisk.setFile, RepoDisk.setStaging, Function.update_self,
      Function.update_of_ne hu, staging_stageOps_of_ne hu]
    exact iff_of_false hu Bool.false_ne_true

theorem atomic_emptyCrash_iff :
    Atomic crashJson emptyManifest crashDraws
        (cleanupStaging ⟨"/data"⟩ ⟨1#128⟩ emptyCrash
          crashDraws.versionId.uuid) ↔
      ¬ (manifestMove emptyManifest crashDraws ∈ emptyOps.take 8 ∧
        sealedMove crashDraws ∉ emptyOps.take 8) :=
  atomic_after_crash_iff rfl rfl (readsBack_crashJson .writing)
    (readsBack_crashJson .sealed) 8 cleanup_emptyCrash

/-- After the crash and the clean-up the manifest is there and the snapshot
is not. -/
theorem emptyCrash_not_atomic :
    CleanupIncomplete ⟨"/data"⟩ ⟨1#128⟩ emptyCrash
        (cleanupStaging ⟨"/data"⟩ ⟨1#128⟩ emptyCrash
          crashDraws.versionId.uuid) ∧
      ¬ Atomic crashJson emptyManifest crashDraws
        (cleanupStaging ⟨"/data"⟩ ⟨1#128⟩ emptyCrash
          crashDraws.versionId.uuid) := by
  refine ⟨cleanup_emptyCrash, ?_⟩
  have hnone : published emptyManifest crashDraws (run (exec ⟨"/data"⟩ ⟨1#128⟩)
      (stageOps (fun _ => emptyManifestHash) crashJson crashDraws emptyManifest
        emptySnapshot []) (diskOf newRepository)) = (none, none) := by
    rw [published, dir_run quiet_stageOps]
    rfl
  have hiff : Atomic crashJson emptyManifest crashDraws emptyCrash ↔
      1 = 0 ∨ 7 ≤ 1 := by
    rw [emptyCrash, emptyOps_take, run_append]
    exact atomic_publishOps_iff (staging_stageOps rfl).1 (staging_stageOps rfl).2
      hnone (readsBack_crashJson .writing) (readsBack_crashJson .sealed) 1
  rw [Atomic, dir_cleanupIncomplete cleanup_emptyCrash, ← Atomic, hiff]
  decide

end Example

end CommitCrash
end Badou
end HyperBackup
