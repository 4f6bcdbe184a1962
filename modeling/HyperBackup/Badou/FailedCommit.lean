import HyperBackup.Badou.CommitFaults

/-!
# What a failed commit leaves behind

A commit that does not succeed leaves nothing behind exactly if it ends before
its version is in writing and before it has a staging directory, or after the
version has been sealed without any chunk counted.
-/

namespace HyperBackup
namespace Badou

/-- The version is in the middle of a commit. -/
def VersionStatus.isBusy : VersionStatus → Bool
  | .writing => true
  | .verifying => true
  | .committing => true
  | _ => false

namespace FailedCommit

open Lib Lib.Program CommitCrash

section Claims

variable (layout : BadouDataLayout) (repoId : RepositoryId) (faults : Faults)

/-- Index and staging area are as before, and no version was left half way. -/
structure NothingLeft (v : VersionId) (before left : Machine) : Prop where
  index : ∀ k, left.disk.store.index.lookup k = before.disk.store.index.lookup k
  staging : ∀ side, left.disk.staging side v.uuid = none
  version : ∀ version, left.versions.versions.lookup v = some version →
    version.status.isBusy = false

/-- The drawn identifier is new: no version and no staging directory has it. -/
structure Fresh (draws : CommitDraws) (s : Machine) : Prop where
  version : s.versions.versions.lookup draws.versionId = none
  staging : ∀ side, s.disk.staging side draws.versionId.uuid = none

/-- Chunks and manifest are written and the chunks pass their verification. -/
structure Staged (blake3 : Bytes → ChunkHash) (st : Store)
    (chunks : List (ChunkHash × Bytes)) : Prop where
  written : ChunksWritten faults 0 st chunks
  manifest : faults (.writeStaged .manifests) = none
  journal : faults (.appendJournal "chunks_written") = none
  reads : ∀ i < chunks.length, faults (.readChunk i) = none
  sound : ChunksSound layout repoId blake3 st chunks

/-- Nothing fails between the verification and the sealing. -/
structure Published : Prop where
  verified : faults (.appendJournal "verified") = none
  snapshot : faults (.writeStaged .snapshots) = none
  renamed : ∀ side, faults (.renameStaged side) = none
  removed : ∀ side, faults (.removeDir side) = none
  journal : faults (.appendJournal "staging_committed") = none

/-- Nothing fails after the version has been sealed. -/
structure SealWritten : Prop where
  written : faults .writeSnapshot = none
  renamed : faults .renameSnapshot = none
  journal : faults (.appendJournal "sealed") = none

/-- The commit ends before it has changed anything, it succeeds, or it fails after
the sealing and has counted no chunk. -/
def EndsClean (blake3 : Bytes → ChunkHash) (parentVersionId : Option VersionId)
    (chunks : List (ChunkHash × Bytes)) (s : Machine) : Prop :=
  (∃ p, parentVersionId = some p ∧ s.versions.versions.lookup p = none) ∨
    faults (.appendJournal "start") ≠ none ∨
    faults (.createDir .manifests) ≠ none ∨
    faults (.createDir .snapshots) = none ∧
      Staged layout repoId faults blake3 s.disk.store chunks ∧ Published faults ∧
      (SealWritten faults ∨ KeepsCounts s.disk.store chunks)

variable (blake3 : Bytes → ChunkHash) (json : Json) (draws : CommitDraws)
variable (parentVersionId : Option VersionId) (manifest : Manifest)
variable (snapshot : Snapshot) (chunks : List (ChunkHash × Bytes))

/-- The commit succeeds or leaves nothing behind. -/
def CleansUp (s : Machine) : Prop :=
  (∃ v id, outcome (commitBackup layout repoId faults blake3 json draws
      parentVersionId manifest snapshot chunks) s = .ok (.success v id)) ∨
    NothingLeft draws.versionId s (stateAfter (commitBackup layout repoId faults blake3
      json draws parentVersionId manifest snapshot chunks) s)

end Claims

section Busy

variable {layout : BadouDataLayout} {repoId : RepositoryId} {faults : Faults}
variable {blake3 : Bytes → ChunkHash} {json : Json} {draws : CommitDraws}
variable {manifest : Manifest} {snapshot : Snapshot}
variable {chunks : List (ChunkHash × Bytes)} {s : Machine}

/-- The version is in the middle of its commit. -/
def Busy (v : VersionId) (s : Machine) : Prop :=
  ∃ version, s.versions.versions.lookup v = some version ∧
    version.status.isBusy = true

theorem preserves_busy {α : Type} {x : FaultM α} (hx : Untouched x)
    (v : VersionId) : Preserves x (Busy v) :=
  hx fun ops => ∃ version, ops.versions.lookup v = some version ∧
    version.status.isBusy = true

theorem preserves_busy_transition (v : VersionId) {target : VersionStatus}
    (htarget : target.isBusy = true) :
    Preserves (onVersions (VersionOps.transition v target)) (Busy v) := by
  intro s hbusy
  rw [onVersions, stateAfter_zoom]
  obtain hsame | ⟨version, -, -, hstate⟩ :=
    VersionOps.stateAfter_transition_cases v target s.versions
  · rw [hsame]
    exact hbusy
  · rw [hstate]
    exact ⟨_, AList.lookup_insert _, htarget⟩

/-- What comes after a version went into writing leaves it busy. -/
theorem preserves_busy_publishCommit :
    Preserves (publishCommit layout repoId faults blake3 json draws manifest
      snapshot) (Busy draws.versionId) := by
  refine preserves_bind (preserves_busy (untouched_perform _ _) _) fun _ => ?_
  refine preserves_bind (preserves_busy_transition _ rfl) fun _ => ?_
  refine preserves_bind (preserves_busy (untouched_perform _ _) _) fun _ => ?_
  refine preserves_busy (untouched_bind ?_ fun _ => untouched_perform _ _) _
  refine untouched_bind (untouched_perform _ _) fun _ => ?_
  exact untouched_bind (untouched_perform _ _) fun _ => untouched_cleanupStaging

theorem not_nothingLeft_of_busy {before left : Machine} {v : VersionId}
    (h : Busy v left) : ¬ NothingLeft v before left := by
  obtain ⟨version, hv, hbusy⟩ := h
  intro hnothing
  rw [hnothing.version version hv] at hbusy
  cases hbusy

end Busy

section Phases

variable (layout : BadouDataLayout) (repoId : RepositoryId) (faults : Faults)
variable (blake3 : Bytes → ChunkHash) (json : Json) (draws : CommitDraws)
variable (manifest : Manifest) (snapshot : Snapshot)
variable (chunks : List (ChunkHash × Bytes))

/-- The state after a transition of a version. -/
def moved (version : Version) (target : VersionStatus) (s : Machine) : Machine :=
  { s with versions := { s.versions with
    versions := s.versions.versions.insert draws.versionId
      { version with status := target } } }

/-- The state in which chunks and manifest are written. -/
def written (version : Version) (s : Machine) : Machine :=
  after layout repoId (journalOp draws .commitStep "chunks_written" false)
    (after layout repoId (.writeStaged .manifests draws.versionId.uuid
        (ManifestStore.manifestName manifest.manifestId)
        (json.manifestToVec manifest))
      { moved draws version .writing s with
        disk := { s.disk with
          store := stateAfter (ChunkStore.writeChunks layout repoId chunks)
            s.disk.store } })

/-- The state in which the chunks are verified. -/
def staged (version : Version) (s : Machine) : Machine :=
  moved draws { version with status := .writing } .verifying
    (written layout repoId json draws manifest chunks version s)

/-- The state in which the staged files have been moved. -/
def renamed (version : Version) (s : Machine) : Machine :=
  after layout repoId (.renameStaged .snapshots draws.versionId.uuid
      (SnapshotStore.snapshotName draws.snapshotId))
    (after layout repoId (.renameStaged .manifests draws.versionId.uuid
        (ManifestStore.manifestName manifest.manifestId))
      (after layout repoId (.writeStaged .snapshots draws.versionId.uuid
          (SnapshotStore.snapshotName draws.snapshotId)
          (json.snapshotToVec (CommitBackup.committedSnapshot blake3 json draws
            manifest snapshot .writing)))
        (moved draws version .committing
          (after layout repoId (journalOp draws .verifyStep "verified" false) s))))

/-- The state in which the version is sealed. -/
def published (version : Version) (s : Machine) : Machine :=
  after layout repoId (journalOp draws .commitStep "staging_committed" false)
    (after layout repoId (.removeDir .snapshots draws.versionId.uuid)
      (after layout repoId (.removeDir .manifests draws.versionId.uuid)
        (renamed layout repoId blake3 json draws manifest snapshot version s)))

variable {layout repoId faults blake3 json draws manifest snapshot chunks}
variable {s s' : Machine} {version : Version}

theorem run_transition_bind {β : Type} {target : VersionStatus}
    {f : Version → FaultM β}
    (hv : s.versions.versions.lookup draws.versionId = some version)
    (hok : version.status.canTransitionTo target = true) :
    (onVersions (VersionOps.transition draws.versionId target) >>= f).run s =
      (f { version with status := target }).run (moved draws version target s) :=
  run_bind_of_ok ((run_transition_eq_ok hv hok).mpr ⟨rfl, rfl⟩)

theorem lookup_moved (version : Version) (target : VersionStatus) (s : Machine) :
    (moved draws version target s).versions.versions.lookup draws.versionId =
      some { version with status := target } :=
  AList.lookup_insert _

/-- When a new version gets to have its chunks verified. -/
theorem run_stageCommit_eq_true
    (hv : s.versions.versions.lookup draws.versionId = some version)
    (hcreated : version.status = .created) :
    (stageCommit layout repoId faults blake3 json draws manifest chunks).run s =
        .ok true s' ↔
      Staged layout repoId faults blake3 s.disk.store chunks ∧
        s' = staged layout repoId json draws manifest chunks version s := by
  have hwriting : version.status.canTransitionTo .writing = true := by
    rw [hcreated]
    rfl
  unfold stageCommit VersionOps.startWriting journal
  rw [run_transition_bind hv hwriting,
    run_guarded_bind_eq_ok fun _ => run_writeChunks_eq_ok,
    run_guarded_bind_eq_ok fun _ => run_perform_eq_ok,
    run_guarded_bind_eq_ok fun _ => run_perform_eq_ok]
  change _ ∧ _ ∧ _ ∧ EStateM.run _
    (written layout repoId json draws manifest chunks version s) = _ ↔ _
  rw [run_transition_bind (s := written layout repoId json draws manifest chunks
      version s) (lookup_moved version .writing s) rfl, run_verifyChunks_eq_true]
  change _ ∧ _ ∧ _ ∧ _ ∧ (∀ c ∈ chunks, ChunkStore.readChunk blake3
    (stateAfter (ChunkStore.writeChunks layout repoId chunks) s.disk.store) c.1 =
      .ok c.2) ∧ _ ↔ _
  rw [chunksSound_iff]
  simp only [Nat.zero_add]
  constructor
  · rintro ⟨hwritten, hmanifest, hjournal, hreads, hsound, rfl⟩
    exact ⟨⟨hwritten, hmanifest, hjournal, hreads, hsound⟩, rfl⟩
  · rintro ⟨⟨hwritten, hmanifest, hjournal, hreads, hsound⟩, rfl⟩
    exact ⟨hwritten, hmanifest, hjournal, hreads, hsound, rfl⟩

/-- When what is staged gets to its place. -/
theorem run_publishCommit_eq_ok {u : Unit}
    (hv : s.versions.versions.lookup draws.versionId = some version)
    (hverifying : version.status = .verifying)
    (hstaging : ∀ side, (s.disk.staging side draws.versionId.uuid).isSome) :
    (publishCommit layout repoId faults blake3 json draws manifest snapshot).run s =
        .ok u s' ↔
      Published faults ∧
        s' = published layout repoId blake3 json draws manifest snapshot version s := by
  have hcommitting : version.status.canTransitionTo .committing = true := by
    rw [hverifying]
    rfl
  unfold publishCommit journal atomicCommit cleanupStaging
  rw [run_guarded_bind_eq_ok fun _ => run_perform_eq_ok,
    run_transition_bind (s := after layout repoId
      (journalOp draws .verifyStep "verified" false) s) hv hcommitting,
    run_guarded_bind_eq_ok fun _ => run_perform_eq_ok]
  simp only [bind_assoc]
  rw [run_guarded_bind_eq_ok fun _ => run_perform_eq_ok,
    run_guarded_bind_eq_ok fun _ => run_perform_eq_ok]
  change _ ∧ _ ∧ _ ∧ _ ∧ EStateM.run _ (renamed layout repoId blake3 json draws
    manifest snapshot version s) = _ ↔ _
  have hdirs : ∀ side, ((renamed layout repoId blake3 json draws manifest snapshot
      version s).disk.staging side draws.versionId.uuid).isSome := by
    intro side
    unfold renamed
    exact isSome_staging_after (by simp) (isSome_staging_after (by simp)
      (isSome_staging_after (by simp) (hstaging side)))
  have hrest : ((after layout repoId (.removeDir .manifests draws.versionId.uuid)
      (renamed layout repoId blake3 json draws manifest snapshot
        version s)).disk.staging .snapshots draws.versionId.uuid).isSome :=
    isSome_staging_after (by simp) (hdirs .snapshots)
  rw [run_guarded_bind_eq_ok fun _ => run_removeDir_eq_ok (hdirs .manifests),
    run_guarded_bind_eq_ok fun _ => run_removeDir_eq_ok hrest, run_perform_eq_ok]
  constructor
  · rintro ⟨hverified, hsnapshot, hmanifests, hsnapshots, hremoved, hremoved',
      hjournal, rfl⟩
    refine ⟨⟨hverified, hsnapshot, fun side => ?_, fun side => ?_, hjournal⟩, rfl⟩
    · cases side with
      | manifests =>
          exact hmanifests
      | snapshots =>
          exact hsnapshots
    · cases side with
      | manifests =>
          exact hremoved
      | snapshots =>
          exact hremoved'
  · rintro ⟨h, rfl⟩
    exact ⟨h.verified, h.snapshot, h.renamed _, h.renamed _, h.removed _, h.removed _,
      h.journal, rfl⟩

variable (layout repoId faults blake3 json manifest snapshot) in
/-- When the sealing of a version is carried through. -/
theorem exists_run_sealCommit_iff
    (hv : s.versions.versions.lookup draws.versionId = some version)
    (hcommitting : version.status = .committing) :
    (∃ v id, outcome (sealCommit layout repoId faults blake3 json draws manifest
        snapshot) s = .ok (.success v id)) ↔
      SealWritten faults := by
  have hsealed : version.status.canTransitionTo .sealed = true := by
    rw [hcommitting]
    rfl
  have hrun : ∀ result s', (sealCommit layout repoId faults blake3 json draws manifest
      snapshot).run s = .ok result s' ↔
        faults .writeSnapshot = none ∧ faults .renameSnapshot = none ∧
          faults (.appendJournal "sealed") = none ∧
            (pure (.success draws.versionId draws.snapshotId) : FaultM _).run
              (after layout repoId (journalOp draws .commitStep "sealed" true)
                (after layout repoId (.rename .snapshots
                    (SnapshotStore.stagingName draws.snapshotId)
                    (SnapshotStore.snapshotName draws.snapshotId))
                  (after layout repoId (.write .snapshots
                      (SnapshotStore.stagingName draws.snapshotId)
                      (json.snapshotToVec (CommitBackup.committedSnapshot blake3 json
                        draws manifest snapshot .sealed)))
                    (moved draws version .sealed s)))) = .ok result s' := by
    intro result s'
    unfold sealCommit writeSnapshot journal
    rw [run_transition_bind hv hsealed]
    simp only [bind_assoc]
    rw [run_guarded_bind_eq_ok fun _ => run_perform_eq_ok,
      run_guarded_bind_eq_ok fun _ => run_perform_eq_ok,
      run_guarded_bind_eq_ok fun _ => run_perform_eq_ok]
    rfl
  constructor
  · rintro ⟨v, id, houtcome⟩
    obtain ⟨hwritten, hrenamed, hjournal, _⟩ :=
      (hrun _ _).mp (run_eq_ok_iff.mpr ⟨houtcome, rfl⟩)
    exact ⟨hwritten, hrenamed, hjournal⟩
  · rintro ⟨hwritten, hrenamed, hjournal⟩
    exact ⟨_, _, (run_eq_ok_iff.mp
      ((hrun _ _).mpr ⟨hwritten, hrenamed, hjournal, rfl⟩)).1⟩

variable (layout repoId faults blake3 json manifest snapshot) in
/-- However the sealing ends, index, staging area and status are decided. -/
theorem stateAfter_sealCommit
    (hv : s.versions.versions.lookup draws.versionId = some version)
    (hcommitting : version.status = .committing) :
    (stateAfter (sealCommit layout repoId faults blake3 json draws manifest snapshot)
        s).disk.store = s.disk.store ∧
      (stateAfter (sealCommit layout repoId faults blake3 json draws manifest snapshot)
        s).disk.staging = s.disk.staging ∧
      ∃ version', (stateAfter (sealCommit layout repoId faults blake3 json draws
        manifest snapshot) s).versions.versions.lookup draws.versionId =
          some version' ∧ version'.status = .sealed := by
  have hsealed : version.status.canTransitionTo .sealed = true := by
    rw [hcommitting]
    rfl
  have hperform : ∀ point op, (∀ d, (exec layout repoId op d).store = d.store ∧
      (exec layout repoId op d).staging = d.staging) →
      Preserves (perform layout repoId faults point op) fun t =>
        t.disk.store = s.disk.store ∧ t.disk.staging = s.disk.staging ∧
          ∃ version', t.versions.versions.lookup draws.versionId = some version' ∧
            version'.status = .sealed := by
    intro point op hop
    refine preserves_bind (fun t ht => ?_) fun _ t ht => ?_
    · unfold check
      cases faults point with
      | none =>
          exact ht
      | some text =>
          exact ht
    · obtain ⟨hstore, hstaging, hversion⟩ := ht
      exact ⟨(hop t.disk).1.trans hstore, (hop t.disk).2.trans hstaging, hversion⟩
  have hrename : ∀ side source target d,
      (exec layout repoId (.rename side source target) d).store = d.store ∧
        (exec layout repoId (.rename side source target) d).staging = d.staging := by
    intro side source target d
    rw [exec]
    split
    · exact ⟨rfl, rfl⟩
    · exact ⟨rfl, rfl⟩
  unfold sealCommit writeSnapshot journal
  rw [stateAfter_bind_of_run ((run_transition_eq_ok hv hsealed).mpr ⟨rfl, rfl⟩)]
  refine preserves_bind (preserves_bind (hperform _ _ fun _ => ⟨rfl, rfl⟩) fun _ =>
    hperform _ _ (hrename _ _ _)) (fun _ => preserves_bind
      (hperform _ _ fun _ => ⟨rfl, rfl⟩) fun _ => preserves_pure _ _) _ ?_
  exact ⟨rfl, rfl, _, lookup_moved version .sealed s, rfl⟩

end Phases

section Begin

variable {layout : BadouDataLayout} {repoId : RepositoryId} {faults : Faults}
variable {blake3 : Bytes → ChunkHash} {json : Json} {draws : CommitDraws}
variable {parent : Option VersionId} {s t : Machine}

/-- The version has been created, and nothing else has happened. -/
structure Created (draws : CommitDraws) (before left : Machine) : Prop where
  version : ∃ version, left.versions.versions.lookup draws.versionId = some version ∧
    version.status = .created
  store : left.disk.store = before.disk.store
  staging : left.disk.staging = before.disk.staging

/-- The version and both staging directories have been created. -/
structure Begun (draws : CommitDraws) (before left : Machine) : Prop where
  version : ∃ version, left.versions.versions.lookup draws.versionId = some version ∧
    version.status = .created
  store : left.disk.store = before.disk.store
  staging : ∀ side, (left.disk.staging side draws.versionId.uuid).isSome

/-- A record in the journal touches nothing else. -/
theorem Created.journal (h : Created draws s t) (opType : JournalOpType)
    (payload : String) (committed : Bool) :
    Created draws s
      (after layout repoId (journalOp draws opType payload committed) t) :=
  ⟨h.version, h.store, h.staging⟩

theorem nothingLeft_refl (hfresh : Fresh draws s) :
    NothingLeft draws.versionId s s where
  index := fun _ => rfl
  staging := hfresh.staging
  version := by
    intro version hv
    rw [hfresh.version] at hv
    cases hv

theorem Created.nothingLeft (h : Created draws s t) (hfresh : Fresh draws s) :
    NothingLeft draws.versionId s t where
  index := by
    intro k
    rw [h.store]
  staging := by
    intro side
    rw [h.staging]
    exact hfresh.staging side
  version := by
    intro version hv
    obtain ⟨created, hlookup, hstatus⟩ := h.version
    rw [hlookup] at hv
    cases hv
    rw [hstatus]
    rfl

/-- Creating the staging directories of a version that has none. -/
theorem run_createStaging
    (hfree : ∀ side, s.disk.staging side draws.versionId.uuid = none) :
    (createStaging layout repoId faults draws).run s =
      match faults (.createDir .manifests) with
      | some text => .ok (.error ("IO error: " ++ text)) s
      | none =>
          match faults (.createDir .snapshots) with
          | some text =>
              .ok (.error ("IO error: " ++ text))
                (after layout repoId (.createDir .manifests draws.versionId.uuid) s)
          | none =>
              .ok (.ok ())
                (after layout repoId (.createDir .snapshots draws.versionId.uuid)
                  (after layout repoId (.createDir .manifests draws.versionId.uuid)
                    s)) := by
  unfold createStaging
  rw [run_bind_of_ok (EStateM.run_get _)]
  simp only [hfree, Option.isSome_none, Bool.false_eq_true, or_self, if_false]
  cases faults (.createDir .manifests) with
  | some text =>
      rfl
  | none =>
      simp only
      rw [run_bind_of_ok (EStateM.run_modify _ _)]
      cases faults (.createDir .snapshots) with
      | some text =>
          rfl
      | none =>
          rfl

/-- A commit with a known parent creates its version and goes on. -/
theorem run_beginCommit
    (hparent : ∀ p ∈ parent, (s.versions.versions.lookup p).isSome) :
    ∃ t, Created draws s t ∧
      (beginCommit layout repoId faults draws parent).run s =
        match faults (.appendJournal "start") with
        | some text => .error (.io (.appendJournal "start") text) t
        | none =>
            (createStaging layout repoId faults draws).run
              (after layout repoId (journalOp draws .commitStep "start" false) t) := by
  obtain ⟨version, ops, hcreate, hversions, hstatus, -, -⟩ :=
    VersionOps.run_createVersion hparent draws.now draws.versionId draws.snapshotId
      repoId
  refine ⟨{ s with versions := ops }, ⟨⟨version, ?_, hstatus⟩, rfl, rfl⟩, ?_⟩
  · rw [hversions]
    exact AList.lookup_insert _
  · unfold beginCommit onVersions journal perform check
    rw [run_bind_of_ok (run_zoom_ok hcreate)]
    cases faults (.appendJournal "start") with
    | some text =>
        rfl
    | none =>
        rfl

/-- Without its parent the version is not even created. -/
theorem run_beginCommit_of_unknown {p : VersionId}
    (hp : s.versions.versions.lookup p = none) :
    (beginCommit layout repoId faults draws (some p)).run s =
      .error (.commit (.versionOps (.parentNotFound p))) s := by
  have hcreate := VersionOps.run_createVersion_error hp draws.now draws.versionId
    draws.snapshotId repoId
  unfold beginCommit onVersions
  exact run_bind_of_error (run_zoom_error hcreate)

end Begin

section Ends

variable {layout : BadouDataLayout} {repoId : RepositoryId} {faults : Faults}
variable {blake3 : Bytes → ChunkHash} {json : Json} {draws : CommitDraws}
variable {parent : Option VersionId} {manifest : Manifest} {snapshot : Snapshot}
variable {chunks : List (ChunkHash × Bytes)} {s t : Machine} {version : Version}

theorem store_after {op : FsOp} (hop : ∀ chunkHash data, op ≠ .writeChunk chunkHash data)
    (s : Machine) : (after layout repoId op s).disk.store = s.disk.store :=
  store_exec hop

theorem store_staged :
    (staged layout repoId json draws manifest chunks version s).disk.store =
      stateAfter (ChunkStore.writeChunks layout repoId chunks) s.disk.store := by
  unfold staged written moved journalOp
  dsimp only
  rw [store_after (by simp), store_after (by simp)]

theorem isSome_staging_staged (side : Side)
    (h : (s.disk.staging side draws.versionId.uuid).isSome) :
    ((staged layout repoId json draws manifest chunks version
      s).disk.staging side draws.versionId.uuid).isSome := by
  have hwritten : ((written layout repoId json draws manifest chunks version
      s).disk.staging side draws.versionId.uuid).isSome := by
    unfold written journalOp
    exact isSome_staging_after (by simp) (isSome_staging_after (by simp) h)
  exact hwritten

theorem lookup_staged :
    (staged layout repoId json draws manifest chunks version
      s).versions.versions.lookup draws.versionId =
        some { version with status := .verifying } :=
  lookup_moved _ _ _

theorem store_published :
    (published layout repoId blake3 json draws manifest snapshot version
      s).disk.store = s.disk.store := by
  unfold published renamed moved journalOp
  rw [store_after (by simp), store_after (by simp), store_after (by simp),
    store_after (by simp), store_after (by simp), store_after (by simp)]
  exact store_after (by simp) s

theorem staging_published (side : Side) :
    (published layout repoId blake3 json draws manifest snapshot version
      s).disk.staging side draws.versionId.uuid = none := by
  have hlast : ∀ d : RepoDisk, (exec layout repoId (.removeDir .snapshots
      draws.versionId.uuid) d).staging side draws.versionId.uuid =
        if side = .snapshots then none else d.staging side draws.versionId.uuid :=
    fun _ => staging_removeDir _ _
  have hfirst : ∀ d : RepoDisk, (exec layout repoId (.removeDir .manifests
      draws.versionId.uuid) d).staging side draws.versionId.uuid =
        if side = .manifests then none else d.staging side draws.versionId.uuid :=
    fun _ => staging_removeDir _ _
  unfold published
  refine (hlast _).trans ?_
  cases side with
  | snapshots =>
      exact if_pos rfl
  | manifests =>
      rw [if_neg (by simp)]
      exact (hfirst _).trans (if_pos rfl)

variable (layout repoId blake3 json draws manifest snapshot version) in
theorem lookup_published (s : Machine) :
    (published layout repoId blake3 json draws manifest snapshot version
      s).versions.versions.lookup draws.versionId =
        some { version with status := .committing } :=
  lookup_moved version .committing
    (after layout repoId (journalOp draws .verifyStep "verified" false) s)

/-- A version whose chunks are being written is busy, however that ends. -/
theorem busy_stageCommit
    (hv : s.versions.versions.lookup draws.versionId = some version)
    (hcreated : version.status = .created) :
    Busy draws.versionId (stateAfter (stageCommit layout repoId faults blake3 json
      draws manifest chunks) s) := by
  have hwriting : version.status.canTransitionTo .writing = true := by
    rw [hcreated]
    rfl
  unfold stageCommit VersionOps.startWriting journal
  rw [stateAfter_bind_of_run ((run_transition_eq_ok hv hwriting).mpr ⟨rfl, rfl⟩)]
  refine preserves_bind (preserves_busy (untouched_writeChunks _ _) _) (fun _ => ?_)
    _ ⟨_, lookup_moved version .writing s, rfl⟩
  refine preserves_bind (preserves_busy (untouched_perform _ _) _) fun _ => ?_
  refine preserves_bind (preserves_busy (untouched_perform _ _) _) fun _ => ?_
  refine preserves_bind (preserves_busy_transition _ rfl) fun _ => ?_
  exact preserves_busy (untouched_verifyChunks _ _) _

theorem not_cleansUp_of_busy
    (houtcome : ∀ v id, outcome (commitBackup layout repoId faults blake3 json draws
      parent manifest snapshot chunks) s ≠ .ok (.success v id))
    (hbusy : Busy draws.versionId (stateAfter (commitBackup layout repoId faults blake3
      json draws parent manifest snapshot chunks) s)) :
    ¬ CleansUp layout repoId faults blake3 json draws parent manifest snapshot chunks
      s := by
  rintro (⟨v, id, hsuccess⟩ | hnothing)
  · exact houtcome v id hsuccess
  · exact not_nothingLeft_of_busy hbusy hnothing

/-- A commit that cannot stage its files leaves its version half way. -/
theorem not_cleansUp_of_not_staged
    (hrun : (beginCommit layout repoId faults draws parent).run s = .ok (.ok ()) t)
    (hbegun : Begun draws s t)
    (hstaged : ¬ Staged layout repoId faults blake3 s.disk.store chunks) :
    ¬ CleansUp layout repoId faults blake3 json draws parent manifest snapshot chunks
      s := by
  obtain ⟨version, hv, hcreated⟩ := hbegun.version
  have hstage : ∀ t', (stageCommit layout repoId faults blake3 json draws manifest
      chunks).run t ≠ .ok true t' := by
    intro t' hok
    have h := (run_stageCommit_eq_true hv hcreated).mp hok
    rw [hbegun.store] at h
    exact hstaged h.1
  have hbusy : Busy draws.versionId (stateAfter (stageCommit layout repoId faults
      blake3 json draws manifest chunks) t) := busy_stageCommit hv hcreated
  refine not_cleansUp_of_busy ?_ ?_
  · intro v id hsuccess
    obtain ⟨t', ht'⟩ : ∃ t', (commitBackup layout repoId faults blake3 json draws parent
        manifest snapshot chunks).run s = .ok (.success v id) t' :=
      ⟨_, run_eq_ok_iff.mpr ⟨hsuccess, rfl⟩⟩
    unfold commitBackup at ht'
    rw [run_bind_of_ok hrun] at ht'
    obtain ⟨verified, t₁, hfirst, hrest⟩ := run_bind_eq_ok.mp ht'
    cases verified with
    | true =>
        exact hstage t₁ hfirst
    | false =>
        obtain ⟨_, _, _, hlast⟩ := run_bind_eq_ok.mp hrest
        cases hlast
  · unfold commitBackup
    rw [stateAfter_bind_of_run hrun]
    dsimp only
    rw [stateAfter_bind]
    cases hfirst : outcome (stageCommit layout repoId faults blake3 json draws manifest
        chunks) t with
    | error e =>
        exact hbusy
    | ok verified =>
        cases verified with
        | true =>
            exact absurd (run_eq_ok_iff.mpr ⟨hfirst, rfl⟩) (hstage _)
        | false =>
            exact preserves_bind (preserves_busy (untouched_failCommit _) _)
              (fun _ => preserves_pure _ _) _ hbusy

variable (json manifest snapshot) in
/-- What is left of a commit that has staged its files. -/
theorem run_commitBackup_of_staged
    (hrun : (beginCommit layout repoId faults draws parent).run s = .ok (.ok ()) t)
    (hbegun : Begun draws s t)
    (hstaged : Staged layout repoId faults blake3 s.disk.store chunks) :
    ∃ t₁ version, t₁.versions.versions.lookup draws.versionId = some version ∧
      version.status = .verifying ∧
      t₁.disk.store = stateAfter (ChunkStore.writeChunks layout repoId chunks)
        s.disk.store ∧
      (∀ side, (t₁.disk.staging side draws.versionId.uuid).isSome) ∧
      (commitBackup layout repoId faults blake3 json draws parent manifest snapshot
        chunks).run s =
        (publishCommit layout repoId faults blake3 json draws manifest snapshot >>=
          fun _ => sealCommit layout repoId faults blake3 json draws manifest
            snapshot).run t₁ := by
  obtain ⟨version, hv, hcreated⟩ := hbegun.version
  have hstage : (stageCommit layout repoId faults blake3 json draws manifest
      chunks).run t = .ok true (staged layout repoId json draws manifest chunks version
        t) := by
    refine (run_stageCommit_eq_true hv hcreated).mpr ⟨?_, rfl⟩
    rw [hbegun.store]
    exact hstaged
  refine ⟨staged layout repoId json draws manifest chunks version t,
    { version with status := .verifying }, lookup_staged, rfl, ?_,
    fun side => isSome_staging_staged side (hbegun.staging side), ?_⟩
  · rw [store_staged, hbegun.store]
  · unfold commitBackup
    rw [run_bind_of_ok hrun]
    exact run_bind_of_ok hstage

/-- A commit that cannot move its files leaves its version half way. -/
theorem not_cleansUp_of_not_published
    (hrun : (beginCommit layout repoId faults draws parent).run s = .ok (.ok ()) t)
    (hbegun : Begun draws s t)
    (hstaged : Staged layout repoId faults blake3 s.disk.store chunks)
    (hpublished : ¬ Published faults) :
    ¬ CleansUp layout repoId faults blake3 json draws parent manifest snapshot chunks
      s := by
  obtain ⟨t₁, version, hv, hverifying, -, hdirs, hcommit⟩ :=
    run_commitBackup_of_staged json manifest snapshot hrun hbegun hstaged
  have hbusy : Busy draws.versionId (stateAfter (publishCommit layout repoId faults
      blake3 json draws manifest snapshot) t₁) := by
    refine preserves_busy_publishCommit t₁ ⟨version, hv, ?_⟩
    rw [hverifying]
    rfl
  cases hpublish : (publishCommit layout repoId faults blake3 json draws manifest
      snapshot).run t₁ with
  | ok u t₂ =>
      exact absurd ((run_publishCommit_eq_ok hv hverifying hdirs).mp hpublish).1
        hpublished
  | error e t₂ =>
      rw [run_bind_of_error hpublish] at hcommit
      refine not_cleansUp_of_busy ?_ ?_
      · intro v id hsuccess
        simp only [outcome, hcommit, reduceCtorEq] at hsuccess
      · simp only [stateAfter, hpublish] at hbusy
        simpa only [stateAfter, hcommit] using hbusy

/-- A commit that has sealed its version has cleaned up but for the counts. -/
theorem cleansUp_iff_of_published
    (hrun : (beginCommit layout repoId faults draws parent).run s = .ok (.ok ()) t)
    (hbegun : Begun draws s t)
    (hstaged : Staged layout repoId faults blake3 s.disk.store chunks)
    (hpublished : Published faults) :
    CleansUp layout repoId faults blake3 json draws parent manifest snapshot chunks s ↔
      SealWritten faults ∨ KeepsCounts s.disk.store chunks := by
  obtain ⟨t₁, version, hv, hverifying, hstore, hdirs, hcommit⟩ :=
    run_commitBackup_of_staged json manifest snapshot hrun hbegun hstaged
  have hpublish : (publishCommit layout repoId faults blake3 json draws manifest
      snapshot).run t₁ =
        .ok () (published layout repoId blake3 json draws manifest snapshot version
          t₁) :=
    (run_publishCommit_eq_ok hv hverifying hdirs).mpr ⟨hpublished, rfl⟩
  rw [run_bind_of_ok hpublish] at hcommit
  have houtcome : outcome (commitBackup layout repoId faults blake3 json draws parent
      manifest snapshot chunks) s = outcome (sealCommit layout repoId faults blake3 json
        draws manifest snapshot) (published layout repoId blake3 json draws manifest
          snapshot version t₁) := by
    simp only [outcome, hcommit]
  have hleft : stateAfter (commitBackup layout repoId faults blake3 json draws parent
      manifest snapshot chunks) s = stateAfter (sealCommit layout repoId faults blake3
        json draws manifest snapshot) (published layout repoId blake3 json draws manifest
          snapshot version t₁) := by
    simp only [stateAfter, hcommit]
  have hlookup := lookup_published layout repoId blake3 json draws manifest snapshot
    version t₁
  obtain ⟨hsealStore, hsealStaging, version', hv', hsealed⟩ := stateAfter_sealCommit
    layout repoId faults blake3 json manifest snapshot hlookup rfl
  rw [← hleft] at hsealStore hsealStaging hv'
  rw [store_published, hstore] at hsealStore
  unfold CleansUp
  rw [houtcome, exists_run_sealCommit_iff layout repoId faults blake3 json manifest
    snapshot hlookup rfl]
  refine or_congr_right ⟨fun hnothing => ?_, fun hkeeps => ⟨?_, ?_, ?_⟩⟩
  · refine (@index_writeChunks_iff layout repoId _ _).mp fun k => ?_
    rw [← hsealStore, hnothing.index k]
  · intro k
    rw [hsealStore]
    exact index_writeChunks_iff.mpr hkeeps k
  · intro side
    rw [hsealStaging]
    exact staging_published side
  · intro version'' hv''
    rw [hv'] at hv''
    cases hv''
    rw [hsealed]
    rfl

end Ends

section Main

variable {layout : BadouDataLayout} {repoId : RepositoryId} {faults : Faults}
variable {blake3 : Bytes → ChunkHash} {json : Json} {draws : CommitDraws}
variable {parent : Option VersionId} {manifest : Manifest} {snapshot : Snapshot}
variable {chunks : List (ChunkHash × Bytes)} {s t : Machine}

theorem cleansUp_of_nothingLeft_error {e : Error}
    (hrun : (beginCommit layout repoId faults draws parent).run s = .error e t)
    (hnothing : NothingLeft draws.versionId s t) :
    CleansUp layout repoId faults blake3 json draws parent manifest snapshot chunks
      s := by
  right
  unfold commitBackup
  rw [stateAfter_bind_of_error hrun]
  exact hnothing

theorem cleansUp_iff_of_refused {reason : String}
    (hrun : (beginCommit layout repoId faults draws parent).run s =
      .ok (.error reason) t) :
    CleansUp layout repoId faults blake3 json draws parent manifest snapshot chunks s ↔
      NothingLeft draws.versionId s t := by
  unfold CleansUp commitBackup
  rw [outcome_bind_of_run hrun, stateAfter_bind_of_run hrun]
  constructor
  · rintro (⟨v, id, hsuccess⟩ | hnothing)
    · cases hsuccess
    · exact hnothing
  · exact Or.inr

/-- How a commit that has begun ends, in the terms of its phases. -/
theorem cleansUp_iff_of_begun
    (hrun : (beginCommit layout repoId faults draws parent).run s = .ok (.ok ()) t)
    (hbegun : Begun draws s t) :
    CleansUp layout repoId faults blake3 json draws parent manifest snapshot chunks s ↔
      Staged layout repoId faults blake3 s.disk.store chunks ∧ Published faults ∧
        (SealWritten faults ∨ KeepsCounts s.disk.store chunks) := by
  by_cases hstaged : Staged layout repoId faults blake3 s.disk.store chunks
  · by_cases hpublished : Published faults
    · rw [cleansUp_iff_of_published hrun hbegun hstaged hpublished]
      simp only [hstaged, hpublished, true_and]
    · refine iff_of_false (not_cleansUp_of_not_published hrun hbegun hstaged
        hpublished) ?_
      exact fun h => hpublished h.2.1
  · refine iff_of_false (not_cleansUp_of_not_staged hrun hbegun hstaged) ?_
    exact fun h => hstaged h.1

/-- A commit whose first record is written goes on to its staging directories. -/
theorem cleansUp_iff_of_started (hfresh : Fresh draws s) (hcreated : Created draws s t)
    (hrun : (beginCommit layout repoId faults draws parent).run s =
      (createStaging layout repoId faults draws).run t) :
    CleansUp layout repoId faults blake3 json draws parent manifest snapshot chunks s ↔
      faults (.createDir .manifests) ≠ none ∨
        faults (.createDir .snapshots) = none ∧
          Staged layout repoId faults blake3 s.disk.store chunks ∧ Published faults ∧
            (SealWritten faults ∨ KeepsCounts s.disk.store chunks) := by
  have hfree : ∀ side, t.disk.staging side draws.versionId.uuid = none := by
    intro side
    rw [hcreated.staging]
    exact hfresh.staging side
  rw [run_createStaging hfree] at hrun
  cases hmanifests : faults (.createDir .manifests) with
  | some text =>
      simp only [hmanifests] at hrun
      rw [cleansUp_iff_of_refused hrun]
      exact iff_of_true (hcreated.nothingLeft hfresh) (Or.inl (by simp))
  | none =>
      simp only [hmanifests] at hrun
      have hdir : ((after layout repoId (.createDir .manifests draws.versionId.uuid)
          t).disk.staging .manifests draws.versionId.uuid).isSome := by
        simp [after, exec, RepoDisk.setStaging]
      cases hsnapshots : faults (.createDir .snapshots) with
      | some text =>
          simp only [hsnapshots] at hrun
          rw [cleansUp_iff_of_refused hrun]
          refine iff_of_false (fun hnothing => ?_) (by simp)
          rw [hnothing.staging] at hdir
          cases hdir
      | none =>
          simp only [hsnapshots] at hrun
          rw [cleansUp_iff_of_begun hrun ⟨hcreated.version, hcreated.store, ?_⟩]
          · simp
          · intro side
            cases side with
            | manifests =>
                exact isSome_staging_after (by simp) hdir
            | snapshots =>
                simp [after, exec, RepoDisk.setStaging]

/-- A commit leaves nothing behind exactly if it ends clean. -/
theorem cleansUp_iff (hfresh : Fresh draws s) :
    CleansUp layout repoId faults blake3 json draws parent manifest snapshot chunks s ↔
      EndsClean layout repoId faults blake3 parent chunks s := by
  unfold EndsClean
  by_cases hparent : ∃ p, parent = some p ∧ s.versions.versions.lookup p = none
  · obtain ⟨p, rfl, hp⟩ := hparent
    exact iff_of_true (cleansUp_of_nothingLeft_error (run_beginCommit_of_unknown hp)
      (nothingLeft_refl hfresh)) (Or.inl ⟨p, rfl, hp⟩)
  have hknown : ∀ p ∈ parent, (s.versions.versions.lookup p).isSome := by
    intro p hp
    rw [Option.isSome_iff_ne_none]
    exact fun hnone => hparent ⟨p, hp, hnone⟩
  obtain ⟨t, hcreated, hrun⟩ := @run_beginCommit layout repoId faults draws _ _ hknown
  simp only [hparent, false_or]
  cases hstart : faults (.appendJournal "start") with
  | some text =>
      simp only [hstart] at hrun
      exact iff_of_true (cleansUp_of_nothingLeft_error hrun
        (hcreated.nothingLeft hfresh)) (Or.inl (by simp))
  | none =>
      simp only [hstart] at hrun
      rw [cleansUp_iff_of_started hfresh (hcreated.journal _ _ _) hrun]
      simp

end Main

section Example

open ManifestRead

/-- A new repository and a new version table. -/
def newMachine : Machine where
  disk := diskOf newRepository
  versions := newRepository.versions

/-- The record that the chunks are written does not fit on the disk. -/
def recordFails : Faults := fun point =>
  if point = .appendJournal "chunks_written" then
    some "No space left on device (os error 28)"
  else none

theorem fresh_newMachine : Fresh crashDraws newMachine where
  version := rfl
  staging := fun _ => rfl

theorem cleansUp_recordFails_iff :
    CleansUp ⟨"/data"⟩ ⟨1#128⟩ recordFails (fun _ => emptyManifestHash) crashJson
        crashDraws none emptyManifest emptySnapshot [(emptyManifestHash, [7])]
        newMachine ↔
      EndsClean ⟨"/data"⟩ ⟨1#128⟩ recordFails (fun _ => emptyManifestHash) none
        [(emptyManifestHash, [7])] newMachine :=
  cleansUp_iff fresh_newMachine

/-- The commit of one chunk fails, and its version stays in writing. -/
theorem not_cleansUp_recordFails :
    ¬ CleansUp ⟨"/data"⟩ ⟨1#128⟩ recordFails (fun _ => emptyManifestHash) crashJson
        crashDraws none emptyManifest emptySnapshot [(emptyManifestHash, [7])]
        newMachine := by
  obtain ⟨t, hcreated, hrun⟩ := @run_beginCommit ⟨"/data"⟩ ⟨1#128⟩ recordFails
    crashDraws none newMachine (by simp)
  rw [cleansUp_iff_of_started fresh_newMachine (hcreated.journal _ _ _) hrun]
  rintro (hmanifests | ⟨_, hstaged, _⟩)
  · exact hmanifests rfl
  · exact absurd hstaged.journal (by decide)

end Example

end FailedCommit
end Badou
end HyperBackup
