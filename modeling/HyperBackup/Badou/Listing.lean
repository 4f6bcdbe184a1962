import HyperBackup.Badou.VersionTable

/-!
# What a repository lists after commits

A listing goes through the versions of a repository in order of creation and
reads the snapshot of each.  A commit that is answered appends one version and
publishes one snapshot; the versions and the snapshots that were there stay as
they are, as long as the identifiers drawn for the commit are new.
-/

namespace HyperBackup
namespace Badou

open Lib Lib.Program

namespace VersionOps

variable {ops : VersionOps} {r repoId : RepositoryId} {fresh : VersionId}
variable {snap : Uuid} {parent : Option VersionId}

/-- The identifiers of the versions of a repository, in order of creation. -/
def versionIds (ops : VersionOps) (r : RepositoryId) : List VersionId :=
  (ops.repoVersions.lookup r).getD []

/-- The identifiers of their snapshots. -/
def snapshotIds (ops : VersionOps) (r : RepositoryId) : List Uuid :=
  (ops.listVersions r).map Version.snapshotId

theorem snapshotIds_eq : ops.snapshotIds r =
    (ops.versionIds r).filterMap fun v =>
      (ops.versions.lookup v).map Version.snapshotId :=
  List.map_filterMap

/-- A transition changes no snapshot. -/
theorem preserves_snapshotIds (v : VersionId) (target : VersionStatus)
    (ids : List Uuid) :
    Preserves (transition v target) fun ops => ops.snapshotIds r = ids := by
  intro ops h
  obtain hsame | ⟨version, hversion, -, hstate⟩ :=
    stateAfter_transition_cases v target ops
  · rw [hsame]
    exact h
  · rw [hstate, ← h, snapshotIds_eq, snapshotIds_eq]
    refine List.filterMap_congr fun w _ => ?_
    rw [HashMap.lookup_insert_of]
    by_cases hw : w = v
    · rw [if_pos hw, hw, hversion]
      rfl
    · rw [if_neg hw]

/-- A version that is created is in the table and the last of its repository. -/
theorem exists_stateAfter_createVersion
    (hparent : ∀ p ∈ parent, (ops.versions.lookup p).isSome) (now : DateTime) :
    ∃ version : Version, version.snapshotId = snap ∧
      (stateAfter (createVersion now fresh snap repoId parent) ops).versions =
        ops.versions.insert fresh version ∧
      (stateAfter (createVersion now fresh snap repoId parent)
        ops).repoVersions =
          ops.repoVersions.insert repoId (ops.versionIds repoId ++ [fresh]) := by
  cases parent with
  | none =>
      exact ⟨_, rfl, rfl, rfl⟩
  | some p =>
      obtain ⟨q, hq⟩ := Option.isSome_iff_exists.mp (hparent p rfl)
      simp only [createVersion, stateAfter, EStateM.run_bind, EStateM.run_get, hq,
        Option.isNone_some, Bool.false_eq_true, if_false, EStateM.run_pure,
        EStateM.run_set]
      exact ⟨_, rfl, rfl, rfl⟩

theorem versionIds_createVersion
    (hparent : ∀ p ∈ parent, (ops.versions.lookup p).isSome) (now : DateTime) :
    (stateAfter (createVersion now fresh snap repoId parent) ops).versionIds r =
      ops.versionIds r ++ if r = repoId then [fresh] else [] := by
  obtain ⟨version, -, -, hlisted⟩ :=
    @exists_stateAfter_createVersion ops repoId fresh snap parent hparent now
  rw [versionIds, hlisted, HashMap.lookup_insert_of]
  by_cases hr : r = repoId
  · rw [if_pos hr, if_pos hr, hr]
    rfl
  · rw [if_neg hr, if_neg hr, List.append_nil]
    rfl

/-- A new version appends its snapshot. -/
theorem snapshotIds_createVersion
    (hparent : ∀ p ∈ parent, (ops.versions.lookup p).isSome) (now : DateTime)
    (hfresh : fresh ∉ ops.versionIds r) :
    (stateAfter (createVersion now fresh snap repoId parent) ops).snapshotIds r =
      ops.snapshotIds r ++ if r = repoId then [snap] else [] := by
  obtain ⟨version, hsnap, hversions, -⟩ :=
    @exists_stateAfter_createVersion ops repoId fresh snap parent hparent now
  have hold : (ops.versionIds r).filterMap (fun v =>
      ((ops.versions.insert fresh version).lookup v).map Version.snapshotId) =
        (ops.versionIds r).filterMap fun v =>
          (ops.versions.lookup v).map Version.snapshotId := by
    refine List.filterMap_congr fun v hv => ?_
    have hne : v ≠ fresh := fun heq => hfresh (heq ▸ hv)
    rw [AList.lookup_insert_ne hne]
  rw [snapshotIds_eq, versionIds_createVersion hparent, hversions,
    List.filterMap_append, hold, snapshotIds_eq]
  by_cases hr : r = repoId
  · rw [if_pos hr, if_pos hr, List.filterMap_cons, AList.lookup_insert,
      Option.map_some, hsnap]
    rfl
  · rw [if_neg hr, if_neg hr]
    rfl

end VersionOps

namespace Server

/-- A listing depends on the identifiers of the snapshots only. -/
theorem readSnapshots_eq (ext : Externals) (catalog : Catalog)
    (versions : List Version) :
    readSnapshots ext catalog versions =
      (versions.map Version.snapshotId).filterMap fun id =>
        (SnapshotStore.readSnapshot ext.json catalog id).toOption := by
  rw [List.filterMap_map]
  rfl

section Committed

variable {ext : Externals} {layout : BadouDataLayout} {s : ServerState}
variable {draws : RequestDraws} {request : Request SnapshotCommitRequest}
variable {args : CommitArgs} {response : SnapshotCommitResponse}
variable {r : RepositoryId}

theorem versionOps_of_answer
    (hparse : parseCommit ext request.inner = .ok args)
    (hanswer : outcome (snapshotCommit ext layout draws request) s =
      .ok response) :
    (stateAfter (snapshotCommit ext layout draws request) s).versionOps =
      (stateAfter (innerCommit ext layout s draws args)
        (commitState s args.repoId)).versions := by
  obtain ⟨-, result, hrun, -⟩ := run_of_answer hparse hanswer
  rw [← (run_eq_ok_iff.mp hrun).2, runCommit, stateAfter_zoom]
  rfl

theorem admits_of_answer
    (hparse : parseCommit ext request.inner = .ok args)
    (hanswer : outcome (snapshotCommit ext layout draws request) s =
      .ok response) :
    CommitBackup.Admits (commitState s args.repoId) args.parentVersionId
      draws.commit.versionId := by
  obtain ⟨hsuccess, -⟩ := success_of_answer hparse hanswer
  exact (CommitBackup.outcome_commitBackup.mp hsuccess).1

theorem versionIds_of_answer
    (hparse : parseCommit ext request.inner = .ok args)
    (hanswer : outcome (snapshotCommit ext layout draws request) s =
      .ok response) :
    (stateAfter (snapshotCommit ext layout draws request)
        s).versionOps.versionIds r =
      s.versionOps.versionIds r ++
        if r = args.repoId then [draws.commit.versionId] else [] := by
  have hadmits := admits_of_answer hparse hanswer
  rw [versionOps_of_answer hparse hanswer]
  refine CommitBackup.versions_of_createVersion
    (P := fun ops => ops.versionIds r = s.versionOps.versionIds r ++
      if r = args.repoId then [draws.commit.versionId] else []) ?_ ?_
  · intro target ops h
    rw [VersionOps.versionIds, VersionOps.preserves_repoVersions _ _ _ _ rfl]
    exact h
  · exact VersionOps.versionIds_createVersion hadmits.1 _

/-- An answered commit appends its snapshot to the listing of its repository. -/
theorem snapshotIds_of_answer
    (hparse : parseCommit ext request.inner = .ok args)
    (hanswer : outcome (snapshotCommit ext layout draws request) s =
      .ok response)
    (hfresh : draws.commit.versionId ∉ s.versionOps.versionIds r) :
    (stateAfter (snapshotCommit ext layout draws request)
        s).versionOps.snapshotIds r =
      s.versionOps.snapshotIds r ++
        if r = args.repoId then [draws.commit.snapshotId] else [] := by
  have hadmits := admits_of_answer hparse hanswer
  rw [versionOps_of_answer hparse hanswer]
  refine CommitBackup.versions_of_createVersion
    (P := fun ops => ops.snapshotIds r = s.versionOps.snapshotIds r ++
      if r = args.repoId then [draws.commit.snapshotId] else []) ?_ ?_
  · exact fun target => VersionOps.preserves_snapshotIds _ target _
  · exact VersionOps.snapshotIds_createVersion hadmits.1 _ hfresh

/-- It leaves the other repositories alone. -/
theorem repoState_of_answer
    (hparse : parseCommit ext request.inner = .ok args)
    (hanswer : outcome (snapshotCommit ext layout draws request) s =
      .ok response) (hr : r ≠ args.repoId) :
    repoState (stateAfter (snapshotCommit ext layout draws request) s) r =
      repoState s r := by
  obtain ⟨-, result, hrun, -⟩ := run_of_answer hparse hanswer
  rw [← (run_eq_ok_iff.mp hrun).2, runCommit, stateAfter_zoom, setCommitState,
    repoState_setRepo, if_neg hr]
  rfl

/-- It publishes its sealed snapshot and leaves the others alone. -/
theorem lookup_snapshot_of_answer
    (hparse : parseCommit ext request.inner = .ok args)
    (hanswer : outcome (snapshotCommit ext layout draws request) s =
      .ok response) (id : Uuid) :
    (repoState (stateAfter (snapshotCommit ext layout draws request) s)
        r).catalog.snapshots.lookup (SnapshotStore.snapshotName id) =
      if r = args.repoId ∧ id = draws.commit.snapshotId then
        some (ext.json.snapshotToVec
          (RecoveryEngine.sealedSnapshot ext draws args))
      else (repoState s r).catalog.snapshots.lookup
        (SnapshotStore.snapshotName id) := by
  obtain ⟨⟨v, snapshotId, hout⟩, hrepo⟩ := success_of_answer hparse hanswer
  by_cases hr : r = args.repoId
  · subst hr
    obtain ⟨-, -, hpublishes⟩ := CommitBackup.publishes_of_success hout
    rw [hrepo, innerCommit, hpublishes.snapshots,
      if_neg (SnapshotStore.snapshotName_ne_stagingName _ id)]
    simp only [SnapshotStore.snapshotName_injective.eq_iff, true_and]
    rfl
  · rw [repoState_of_answer hparse hanswer hr, if_neg fun h => hr h.1]

/-- Its staging area is gone, others are left alone. -/
theorem lookup_staging_of_answer
    (hparse : parseCommit ext request.inner = .ok args)
    (hanswer : outcome (snapshotCommit ext layout draws request) s =
      .ok response) (hr : args.repoId = r) (u : Uuid) :
    (repoState (stateAfter (snapshotCommit ext layout draws request) s)
        r).catalog.staging.lookup u =
      if u = draws.commit.versionId.uuid then none
      else (repoState s r).catalog.staging.lookup u := by
  subst hr
  obtain ⟨⟨v, snapshotId, hout⟩, hrepo⟩ := success_of_answer hparse hanswer
  obtain ⟨-, -, hpublishes⟩ := CommitBackup.publishes_of_success hout
  rw [hrepo, innerCommit, hpublishes.staging]
  rfl

/-- A commit that lists no chunks leaves all stores as they are. -/
theorem store_snapshotCommit_of_nil
    (hparse : parseCommit ext request.inner = .ok args)
    (hnil : args.chunkHashes = []) :
    (repoState (stateAfter (snapshotCommit ext layout draws request) s)
        r).store = (repoState s r).store := by
  obtain ⟨-, hstate⟩ | ⟨args', hparse', hstate, -⟩ :=
    stateAfter_snapshotCommit_cases ext layout s draws request
  · rw [hstate]
  · obtain rfl := Except.ok.inj (hparse.symm.trans hparse')
    have hchunks : commitChunks ext s args = [] := by
      rw [commitChunks, hnil]
      rfl
    rw [hstate, store_runCommit, hchunks, ChunkStore.stateAfter_writeChunks]
    exact ite_self _

/-- Known repositories stay known. -/
theorem isSome_lookup_snapshotCommit (h : (s.repos.lookup r).isSome) :
    ((stateAfter (snapshotCommit ext layout draws request)
      s).repos.lookup r).isSome := by
  obtain ⟨-, hstate⟩ | ⟨args, -, hstate, -⟩ :=
    stateAfter_snapshotCommit_cases ext layout s draws request
  · rw [hstate]
    exact h
  · rw [hstate, runCommit, stateAfter_zoom, setCommitState, setRepo,
      HashMap.lookup_insert_of]
    split
    · rfl
    · exact h

end Committed

end Server

end Badou
end HyperBackup
