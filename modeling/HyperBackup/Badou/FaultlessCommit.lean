import HyperBackup.Badou.FailedCommit
import HyperBackup.Lib.Mirror

/-!
# A commit on a file system that does not fail

Where no operation of the file system fails, the commit with all its exits does
what the commit on the state of the repository does: it has the same outcome,
and leaves the same disk and the same version table.
-/

namespace HyperBackup
namespace Badou
namespace FailedCommit

open Lib Lib.Program Lib.Trace Lib.Mirror CommitCrash

/-- What the state of a commit is on disk and in the version table. -/
def machineOf (s : CommitState) : Machine where
  disk := diskOf s
  versions := s.versions

/-- No operation fails. -/
def faultless : Faults :=
  fun _ => none

/-- Without faults the first program does on the machine what the second does. -/
abbrev Mirrored {α : Type} (x : FaultM α) (y : CommitBackup.CommitM α)
    (s : CommitState) : Prop :=
  Mirrors machineOf Error.commit x y s

section Parts

variable {layout : BadouDataLayout} {repoId : RepositoryId}
variable {blake3 : Bytes → ChunkHash} {json : Json} {draws : CommitDraws}
variable {manifest : Manifest} {snapshot : Snapshot}
variable {s s' : CommitState} {dir : StagingDir}

variable (layout repoId) in
theorem machineOf_of_performs {y : CommitBackup.CommitM Unit} {ops : List FsOp}
    (hp : Performs diskOf (exec layout repoId) y s ops) (hy : y.run s = .ok () s')
    (hversions : s'.versions = s.versions) :
    machineOf s' =
      { machineOf s with disk := run (exec layout repoId) ops (diskOf s) } := by
  rw [Performs, (run_eq_ok_iff.mp hy).2] at hp
  simp only [machineOf, hp, hversions]

/-- A single operation and what it is of the catalog or the journal. -/
theorem run_perform_of_performs {y : CommitBackup.CommitM Unit} {op : FsOp}
    (point : IoPoint) (hp : Performs diskOf (exec layout repoId) y s [op])
    (hy : y.run s = .ok () s') (hversions : s'.versions = s.versions) :
    (perform layout repoId faultless point op).run (machineOf s) =
      .ok () (machineOf s') := by
  rw [machineOf_of_performs layout repoId hp hy hversions]
  exact run_perform_eq_ok.mpr ⟨rfl, rfl⟩

theorem mirrors_onVersions {α : Type} (x : EStateM VersionOpsError VersionOps α)
    (s : CommitState) : Mirrored (onVersions x) (CommitBackup.onVersions x) s :=
  mirrors_zoom rfl (fun _ => rfl) fun _ => rfl

/-- A transition that is allowed changes the version on both sides. -/
theorem mirrors_bind_transition {α : Type} {version : Version} {v : VersionId}
    {target : VersionStatus} {g : Version → FaultM α}
    {h : Version → CommitBackup.CommitM α}
    (hversion : s.versions.versions.lookup v = some version)
    (hok : version.status.canTransitionTo target = true)
    (hrest : ∀ a s', s'.versions.versions.lookup v =
        some { version with status := target } → s'.repo = s.repo →
      Mirrored (g a) (h a) s') :
    Mirrored (onVersions (VersionOps.transition v target) >>= g)
      (CommitBackup.onVersions (VersionOps.transition v target) >>= h) s := by
  obtain ⟨a, s', hrun, hlookup, hrepo⟩ :=
    CommitBackup.returns_transition target hversion hok
  exact mirrors_bind_of_ok ((mirrors_onVersions _ s).run_eq_ok hrun) hrun
    (hrest a s' hlookup hrepo)

theorem run_journal (opType : JournalOpType) (payload : String) (committed : Bool)
    (s : CommitState) :
    (journal layout repoId faultless draws opType payload committed).run
        (machineOf s) =
      .ok () (machineOf (stateAfter
        (CommitBackup.append draws opType payload committed) s)) :=
  run_perform_of_performs _ (performs_append _ _ _) rfl rfl

theorem isSome_staging_machineOf
    (h : s.repo.catalog.staging.lookup draws.versionId.uuid = some dir) (side : Side) :
    ((machineOf s).disk.staging side draws.versionId.uuid).isSome := by
  simp [machineOf, diskOf, h]

theorem mirrors_cleanupStaging
    (h : s.repo.catalog.staging.lookup draws.versionId.uuid = some dir) :
    Mirrored (cleanupStaging layout repoId faultless draws)
      (CommitBackup.modifyCatalog (Catalog.cleanupStaging draws.versionId.uuid)) s := by
  refine mirrors_of_ok (a := ()) rfl ?_
  rw [machineOf_of_performs layout repoId (performs_cleanupStaging draws.versionId.uuid) rfl rfl]
  unfold cleanupStaging
  rw [run_bind_of_ok ((run_removeDir_eq_ok (u := ()) (isSome_staging_machineOf h _)).mpr
    ⟨rfl, rfl⟩)]
  exact (run_removeDir_eq_ok (isSome_staging_after (by simp)
    (isSome_staging_machineOf h _))).mpr ⟨rfl, rfl⟩

theorem mirrors_failCommit (reason : String)
    (h : s.repo.catalog.staging.lookup draws.versionId.uuid = some dir) :
    Mirrored (failCommit layout repoId faultless draws reason)
      (CommitBackup.failCommit draws reason) s :=
  mirrors_bind (mirrors_cleanupStaging h) fun _ s' _ =>
    mirrors_of_ok rfl (run_journal _ _ _ s')

theorem mirrors_atomicCommit {manifestName snapshotName : String} {text text' : Bytes}
    (h : s.repo.catalog.staging.lookup draws.versionId.uuid = some
      { manifestStaging := (∅ : HashMap String Bytes).insert manifestName text
        snapshotStaging := (∅ : HashMap String Bytes).insert snapshotName text' }) :
    Mirrored (atomicCommit layout repoId faultless draws manifestName snapshotName)
      (CommitBackup.modifyCatalog (Catalog.atomicCommit draws.versionId.uuid)) s := by
  refine mirrors_of_ok (a := ()) rfl ?_
  rw [machineOf_of_performs layout repoId (performs_atomicCommit h) rfl rfl]
  have hdirs : ∀ side, ((after layout repoId (.renameStaged .snapshots
      draws.versionId.uuid snapshotName) (after layout repoId (.renameStaged .manifests
        draws.versionId.uuid manifestName) (machineOf s))).disk.staging side
          draws.versionId.uuid).isSome := fun side =>
    isSome_staging_after (by simp) (isSome_staging_after (by simp)
      (isSome_staging_machineOf h side))
  unfold atomicCommit cleanupStaging
  rw [run_bind_of_ok ((run_perform_eq_ok (u := ())).mpr ⟨rfl, rfl⟩),
    run_bind_of_ok ((run_perform_eq_ok (u := ())).mpr ⟨rfl, rfl⟩),
    run_bind_of_ok ((run_removeDir_eq_ok (u := ()) (hdirs _)).mpr ⟨rfl, rfl⟩)]
  exact (run_removeDir_eq_ok (isSome_staging_after (by simp) (hdirs _))).mpr ⟨rfl, rfl⟩

theorem run_createStaging_of_taken
    (h : s.repo.catalog.staging.lookup draws.versionId.uuid = some dir) :
    (createStaging layout repoId faultless draws).run (machineOf s) =
      .ok (.error (StagingError.alreadyExists draws.versionId.uuid).message)
        (machineOf s) := by
  unfold createStaging
  rw [run_bind_of_ok (EStateM.run_get _)]
  simp only [isSome_staging_machineOf h, true_or, if_true]
  rfl

theorem run_createStaging_of_free
    (h : s.repo.catalog.staging.lookup draws.versionId.uuid = none) :
    (createStaging layout repoId faultless draws).run (machineOf s) =
      .ok (.ok ()) (machineOf (stateAfter (CommitBackup.modifyCatalog fun c =>
        { c with staging := c.staging.insert draws.versionId.uuid .empty }) s)) := by
  have hmachine :=
    machineOf_of_performs layout repoId (performs_createStaging h) rfl rfl
  have hfree : ∀ side, (machineOf s).disk.staging side draws.versionId.uuid = none := by
    simp [machineOf, diskOf, h]
  exact (run_createStaging hfree).trans (congrArg (EStateM.Result.ok _) hmachine.symm)

theorem mirrors_writeSnapshot {id : Uuid} (snapshot : Snapshot)
    (hrun : (CommitBackup.onCatalog (SnapshotStore.writeSnapshot json snapshot)).run s =
      .ok id s') :
    (writeSnapshot layout repoId faultless json snapshot).run (machineOf s) =
      .ok () (machineOf s') := by
  have hversions : s'.versions = s.versions := by
    rw [← (run_eq_ok_iff.mp hrun).2, CommitBackup.onCatalog, stateAfter_zoom]
  have hdisk : diskOf s' = run (exec layout repoId) (writeSnapshotOps
      snapshot.snapshotId (json.snapshotToVec snapshot)) (diskOf s) := by
    rw [← (run_eq_ok_iff.mp hrun).2]
    exact performs_writeSnapshot hrun
  unfold writeSnapshot
  rw [run_bind_of_ok ((run_perform_eq_ok (u := ())).mpr ⟨rfl, rfl⟩)]
  refine run_perform_eq_ok.mpr ⟨rfl, ?_⟩
  simp only [machineOf, hdisk, hversions, after, writeSnapshotOps, run_cons, run_nil]

theorem mirrors_writeChunks (chunks : List (ChunkHash × Bytes)) (s : CommitState) :
    Mirrored (writeChunks layout repoId faultless 0 chunks)
      (CommitBackup.onStore (ChunkStore.writeChunks layout repoId chunks)) s := by
  refine mirrors_of_ok (CommitBackup.run_onStore (ChunkStore.run_writeChunks layout
    repoId chunks s.repo.store)) ?_
  rw [run_writeChunks_eq_ok, ← ChunkStore.stateAfter_writeChunks]
  exact ⟨fun _ _ _ _ => ⟨fun _ _ => rfl, rfl⟩, rfl⟩

/-- The verification reads the chunks one by one. -/
theorem run_verifyChunks (i : Nat) (chunks : List (ChunkHash × Bytes)) (m : Machine) :
    (verifyChunks faultless blake3 i chunks).run m =
      (ofResult (fun e => Error.commit (.chunkStore e))
        (CommitBackup.verifyChunks blake3 m.disk.store chunks) : FaultM Bool).run m := by
  induction chunks generalizing i with
  | nil =>
      rfl
  | cons c chunks ih =>
      obtain ⟨h, data⟩ := c
      have hread : (readChunk faultless blake3 i h).run m =
          (ofResult (fun e => Error.commit (.chunkStore e))
            (ChunkStore.readChunk blake3 m.disk.store h) : FaultM Bytes).run m := by
        unfold readChunk
        rw [run_bind_of_ok (EStateM.run_get _)]
        split
        · exact run_bind_of_ok ((run_check_eq_ok (u := ())).mpr ⟨rfl, rfl⟩)
        · rfl
      unfold verifyChunks CommitBackup.verifyChunks
      cases hstored : ChunkStore.readChunk blake3 m.disk.store h with
      | error e =>
          rw [hstored] at hread
          exact run_bind_of_error hread
      | ok stored =>
          rw [hstored] at hread
          rw [run_bind_of_ok hread]
          by_cases hdata : stored = data
          · simp only [hdata, ne_eq, not_true_eq_false, if_false, bind, Except.bind]
            exact ih (i + 1)
          · simp only [hdata, ne_eq, not_false_eq_true, if_true, bind, Except.bind]
            rfl

/-- What is done once the chunks are verified. -/
theorem mirrors_sealCommit {version version' : Version}
    (hversion : s.versions.versions.lookup draws.versionId = some version')
    (hverifying : version'.status = .verifying)
    (hsnapshot : version.snapshotId = draws.snapshotId)
    (hstaged : s.repo.catalog.staging.lookup draws.versionId.uuid = some
      { manifestStaging := (∅ : HashMap String Bytes).insert
          (ManifestStore.manifestName manifest.manifestId)
          (json.manifestToVec manifest)
        snapshotStaging := ∅ }) :
    Mirrored (publishCommit layout repoId faultless blake3 json draws manifest snapshot >>=
        fun _ => sealCommit layout repoId faultless blake3 json draws manifest snapshot)
      (CommitBackup.sealCommit blake3 json draws version manifest snapshot) s := by
  unfold publishCommit sealCommit CommitBackup.sealCommit
  rw [hsnapshot]
  simp only [bind_assoc]
  refine mirrors_bind_of_ok (run_journal _ _ _ s) rfl ?_
  refine mirrors_bind_transition hversion (by rw [hverifying]; rfl) ?_
  intro _ s₂ hcommitting hrepo₂
  have hstaged₂ : s₂.repo.catalog.staging.lookup draws.versionId.uuid = some
      { manifestStaging := (∅ : HashMap String Bytes).insert
          (ManifestStore.manifestName manifest.manifestId)
          (json.manifestToVec manifest)
        snapshotStaging := ∅ } := by
    rw [hrepo₂]
    exact hstaged
  refine mirrors_bind_of_ok (run_perform_of_performs _
    (performs_stageSnapshot _ hstaged₂) rfl rfl) rfl ?_
  refine mirrors_bind_of_ok ((mirrors_atomicCommit
    ((Catalog.lookup_writeToStaging_snapshot _ hstaged₂ _).trans
      (if_pos rfl))).run_eq_ok rfl) rfl ?_
  refine mirrors_bind_of_ok (run_journal _ _ _ _) rfl ?_
  refine mirrors_bind_transition hcommitting rfl ?_
  intro _ s₃ _ _
  refine mirrors_bind_of_ok (mirrors_writeSnapshot _ rfl) rfl ?_
  refine mirrors_bind_of_ok (run_journal _ _ _ _) rfl ?_
  exact mirrors_pure _ _

/-- What is done once the version is in writing. -/
theorem mirrors_finishCommit {chunks : List (ChunkHash × Bytes)}
    {version version' : Version}
    (hversion : s.versions.versions.lookup draws.versionId = some version')
    (hwriting : version'.status = .writing)
    (hsnapshot : version.snapshotId = draws.snapshotId)
    (hempty : s.repo.catalog.staging.lookup draws.versionId.uuid = some .empty) :
    Mirrored
      (do
        perform layout repoId faultless (.writeStaged .manifests)
          (.writeStaged .manifests draws.versionId.uuid
            (ManifestStore.manifestName manifest.manifestId)
            (json.manifestToVec manifest))
        journal layout repoId faultless draws .commitStep "chunks_written" false
        let _ ← onVersions (VersionOps.transition draws.versionId .verifying)
        let verified ← verifyChunks faultless blake3 0 chunks
        if verified then
          publishCommit layout repoId faultless blake3 json draws manifest snapshot
          sealCommit layout repoId faultless blake3 json draws manifest snapshot
        else
          failCommit layout repoId faultless draws "chunk hash verification failed"
          return .failure draws.versionId "chunk hash verification failed")
      (CommitBackup.finishCommit blake3 json draws version manifest snapshot chunks)
      s := by
  unfold CommitBackup.finishCommit
  refine mirrors_bind_of_ok (run_perform_of_performs _
    (performs_writeManifest _ hempty) rfl rfl) rfl ?_
  refine mirrors_bind_of_ok (run_journal _ _ _ _) rfl ?_
  refine mirrors_bind_transition hversion (by rw [hwriting]; rfl) ?_
  intro _ s₁ hverifying hrepo
  have hstaged : s₁.repo.catalog.staging.lookup draws.versionId.uuid = some
      { manifestStaging := (∅ : HashMap String Bytes).insert
          (ManifestStore.manifestName manifest.manifestId)
          (json.manifestToVec manifest)
        snapshotStaging := ∅ } := by
    rw [hrepo]
    exact (Catalog.lookup_writeToStaging_manifest _ hempty _).trans (if_pos rfl)
  refine mirrors_bind_silent rfl ?_
  refine mirrors_bind ?_ fun verified s₂ hverify => ?_
  · unfold Mirrors
    rw [run_verifyChunks]
    exact mirrors_ofResult _ _ s₁
  · obtain ⟨-, rfl⟩ := run_ofResult_eq_ok.mp hverify
    cases verified with
    | true =>
        exact mirrors_sealCommit hverifying rfl hsnapshot hstaged
    | false =>
        exact mirrors_bind (mirrors_failCommit _ hstaged) fun _ _ _ => mirrors_pure _ _

/-- On a file system that does not fail the commit is that of the repository. -/
theorem mirrors_commitBackup (parent : Option VersionId) (manifest : Manifest)
    (snapshot : Snapshot) (chunks : List (ChunkHash × Bytes)) (s : CommitState) :
    Mirrored
      (commitBackup layout repoId faultless blake3 json draws parent manifest snapshot
        chunks)
      (CommitBackup.commitBackup layout blake3 json draws repoId parent manifest
        snapshot chunks) s := by
  by_cases hparent : ∃ p, parent = some p ∧ s.versions.versions.lookup p = none
  · obtain ⟨p, rfl, hp⟩ := hparent
    have hcreate := VersionOps.run_createVersion_error hp draws.now draws.versionId
      draws.snapshotId repoId
    unfold Mirrored Mirrors commitBackup CommitBackup.commitBackup CommitBackup.beginCommit
    rw [bind_assoc, run_bind_of_error (run_beginCommit_of_unknown hp),
      run_bind_of_error (CommitBackup.run_onVersions_error hcreate)]
  have hknown : ∀ p ∈ parent, (s.versions.versions.lookup p).isSome := by
    intro p hp
    rw [Option.isSome_iff_ne_none]
    exact fun hnone => hparent ⟨p, hp, hnone⟩
  obtain ⟨version, ops, hcreate, hversions, hcreated, hsnapshot, -⟩ :=
    VersionOps.run_createVersion hknown draws.now draws.versionId draws.snapshotId repoId
  have hrun : (CommitBackup.onVersions (VersionOps.createVersion draws.now
      draws.versionId draws.snapshotId repoId parent)).run s =
        .ok version { s with versions := ops } := CommitBackup.run_onVersions hcreate
  unfold commitBackup beginCommit CommitBackup.commitBackup CommitBackup.beginCommit
  simp only [bind_assoc]
  refine mirrors_bind_of_ok ((mirrors_onVersions _ s).run_eq_ok hrun) hrun ?_
  refine mirrors_bind_of_ok (run_journal _ _ _ _) rfl ?_
  refine mirrors_bind_silent rfl ?_
  have hlookup : (stateAfter (CommitBackup.append draws .commitStep "start" false)
      { s with versions := ops }).versions.versions.lookup draws.versionId =
        some version := by
    change ops.versions.lookup draws.versionId = some version
    rw [hversions]
    exact AList.lookup_insert _
  generalize stateAfter (CommitBackup.append draws .commitStep "start" false)
    { s with versions := ops } = s₁ at hlookup ⊢
  cases hstaging : s₁.repo.catalog.staging.lookup draws.versionId.uuid with
  | some dir =>
      simp only [Catalog.run_createStaging_taken hstaging]
      exact mirrors_bind_of_ok (run_createStaging_of_taken hstaging) rfl
        (mirrors_pure _ _)
  | none =>
      simp only [Catalog.run_createStaging_free hstaging, bind_assoc]
      refine mirrors_bind_of_ok (run_createStaging_of_free hstaging) rfl ?_
      unfold stageCommit VersionOps.startWriting
      simp only [bind_assoc]
      have hallowed : version.status.canTransitionTo .writing = true := by
        rw [hcreated]
        rfl
      refine mirrors_bind_transition hlookup hallowed ?_
      intro _ s₂ hwriting hrepo
      refine mirrors_bind_silent rfl ?_
      dsimp only
      have hwrite := CommitBackup.run_onStore (s := s₂)
        (ChunkStore.run_writeChunks layout repoId chunks s₂.repo.store)
      refine mirrors_bind_of_ok ((mirrors_writeChunks chunks s₂).run_eq_ok hwrite)
        hwrite ?_
      refine mirrors_finishCommit hwriting rfl hsnapshot ?_
      rw [hrepo]
      exact AList.lookup_insert _

/-- Outcome, disk and version table are those of the commit of the repository. -/
theorem commitBackup_faultless (parent : Option VersionId) (manifest : Manifest)
    (snapshot : Snapshot) (chunks : List (ChunkHash × Bytes)) (s : CommitState) :
    outcome (commitBackup layout repoId faultless blake3 json draws parent manifest
        snapshot chunks) (machineOf s) =
      (outcome (CommitBackup.commitBackup layout blake3 json draws repoId parent manifest
        snapshot chunks) s).mapError .commit ∧
    stateAfter (commitBackup layout repoId faultless blake3 json draws parent manifest
        snapshot chunks) (machineOf s) =
      machineOf (stateAfter (CommitBackup.commitBackup layout blake3 json draws repoId
        parent manifest snapshot chunks) s) :=
  ⟨(mirrors_commitBackup parent manifest snapshot chunks s).outcome_eq,
    (mirrors_commitBackup parent manifest snapshot chunks s).stateAfter_eq⟩

end Parts

end FailedCommit
end Badou
end HyperBackup
