import HyperBackup.Badou.Listing
import HyperBackup.Provider.ChunkAddressing

/-!
# Manifests through the provider

A manifest is uploaded as a chunk, and a snapshot is committed whose file tree
root is the hash of that chunk.  To read the manifest of a version, the
provider lists the snapshots of the repository, looks for the version and
follows the root.

The listing it asks for has no limit, and the server takes that as a hundred.
So of the versions of a repository only the first hundred can be found.
-/

namespace HyperBackup
namespace Provider
namespace BaDouProvider

open Lib Lib.Program Badou

/-- A manifest to be written, with the identifiers drawn for it. -/
structure ManifestWrite where
  draws : ManifestDraws
  versionId : VersionId
  manifest : Agent.Manifest

namespace ManifestWrite

variable (w : ManifestWrite)

/-- The identifiers the server draws for the version and its snapshot. -/
def committedVersion : VersionId :=
  w.draws.request.commit.versionId

def committedSnapshot : Uuid :=
  w.draws.request.commit.snapshotId

end ManifestWrite

section Runs

variable (ext : Externals) (layout : BadouDataLayout) (codec : Codec)
variable (provider : BaDouProvider)

/-- The data a manifest is uploaded as. -/
def packed (m : Agent.Manifest) : Bytes :=
  (codec.encodeAll (codec.manifestToVec m)).toOption.getD []

/-- The chunk a manifest is uploaded as. -/
def packedChunk (m : Agent.Manifest) : ChunkHash × Bytes :=
  (ext.blake3 (packed codec m), packed codec m)

def writeOne (s : ServerState) (w : ManifestWrite) : ServerState :=
  stateAfter (writeManifest reliable ext layout codec provider w.draws
    w.versionId w.manifest) s

def writeAll (s : ServerState) (ws : List ManifestWrite) : ServerState :=
  ws.foldl (writeOne ext layout codec provider) s

/-- All writes are answered. -/
def Written (s : ServerState) : List ManifestWrite → Prop
  | [] => True
  | w :: ws =>
      outcome (writeManifest reliable ext layout codec provider w.draws
        w.versionId w.manifest) s = .ok () ∧
      Written (writeOne ext layout codec provider s w) ws

/-- Every manifest is read as it was written. -/
def ReadBack (s : ServerState) (ws : List ManifestWrite) : Prop :=
  ∀ w ∈ ws, outcome (readManifest reliable ext codec provider w.versionId) s =
    .ok w.manifest

end Runs

section Reading

variable {ext : Externals} {layout : BadouDataLayout} {codec : Codec}
variable {provider : BaDouProvider} {s : ServerState} {r : RepositoryId}

/-- The snapshots that a reader of manifests gets. -/
def listed (ext : Externals) (s : ServerState) (r : RepositoryId) :
    List Snapshot :=
  Server.readSnapshots ext (Server.repoState s r).catalog
    ((s.versionOps.listVersions r).take 100)

/-- The manifest that some data are read as. -/
def unpack (codec : Codec) (data : Bytes) : Except String Agent.Manifest := do
  let json ← codec.decodeAll data
  codec.manifestFromSlice json

theorem run_listRequest (h : ReadsFrom ext provider s r) :
    (Server.snapshotList ext provider.listRequest).run s =
      .ok { snapshots := (listed ext s r).map fun snap =>
              Convert.snapshotToPbMeta ext snap provider.repoId
            nextCursor := none } s := by
  unfold Server.snapshotList
  exact (run_bind_of_ok (run_ofResult_eq_ok.mpr ⟨h.authorized, rfl⟩)).trans
    ((run_bind_of_ok (run_ofResult_eq_ok.mpr ⟨h.parsed, rfl⟩)).trans
      ((run_bind_of_ok (EStateM.run_get s)).trans
        (run_bind_of_ok (Server.run_openRepo h.known))))

/-- Versions are compared by their texts. -/
theorem find_listed (v : VersionId) (snapshots : List Snapshot) (repoId : String) :
    ((snapshots.map fun snap => Convert.snapshotToPbMeta ext snap repoId).find?
        fun m => m.versionId = uuidText v.uuid) =
      (snapshots.find? fun snap => snap.versionId = v).map fun snap =>
        Convert.snapshotToPbMeta ext snap repoId := by
  have htexts : ∀ snap : Snapshot,
      uuidText snap.versionId.uuid = uuidText v.uuid ↔ snap.versionId = v := by
    intro snap
    rw [uuidText_injective.eq_iff]
    exact ⟨congrArg VersionId.mk, congrArg VersionId.uuid⟩
  rw [List.find?_map]
  simp only [Function.comp_def, Convert.snapshotToPbMeta, htexts]

/-- The manifest that is read for a version is that of the first listed
snapshot of the version. -/
theorem outcome_readManifest_eq_ok_iff {v : VersionId} {m : Agent.Manifest}
    (hreads : ReadsFrom ext provider s r) :
    outcome (readManifest reliable ext codec provider v) s = .ok m ↔
      ∃ snap, ((listed ext s r).find? fun snap => snap.versionId = v) =
          some snap ∧
        ∃ h data, Convert.parseHash snap.fileTree.root = .ok h ∧
          ChunkStore.readChunk ext.blake3 (Server.repoState s r).store h =
            .ok data ∧
          unpack codec data = .ok m := by
  unfold readManifest
  rw [outcome_bind_of_run (run_reliable_eq_ok.mpr (run_listRequest hreads))]
  simp only [find_listed]
  cases hfind : (listed ext s r).find? fun snap => snap.versionId = v with
  | none =>
      simp only [Option.map_none, reduceCtorEq, false_and, exists_false, iff_false]
      intro h
      cases h
  | some snap =>
      simp only [Option.map_some, Option.some.injEq, exists_eq_left']
      constructor
      · intro houtcome
        obtain ⟨chunk, s₁, hget, hrest⟩ :=
          run_bind_eq_ok.mp (run_eq_ok_iff.mpr ⟨houtcome, rfl⟩)
        obtain ⟨json, s₂, hdecode, hmanifest⟩ := run_bind_eq_ok.mp hrest
        obtain ⟨r', h, -, hrepo, hhash, -, hread, rfl⟩ :=
          Server.of_run_chunkGet (run_reliable_eq_ok.mp hget)
        obtain rfl := Except.ok.inj (hreads.parsed.symm.trans hrepo)
        refine ⟨h, chunk.data, hhash, hread, ?_⟩
        rw [unpack, (run_ofResult_eq_ok.mp hdecode).1]
        exact (run_ofResult_eq_ok.mp hmanifest).1
      · rintro ⟨h, data, hhash, hread, hunpack⟩
        have hget := @Server.run_chunkGet ext s r
          (provider.getRequest snap.fileTree.root) h data hreads.authorized
          hreads.parsed hhash hreads.known hread
        cases hdecode : codec.decodeAll data with
        | error e =>
            rw [unpack, hdecode] at hunpack
            cases hunpack
        | ok json =>
            rw [unpack, hdecode] at hunpack
            exact (outcome_bind_of_run (run_reliable_eq_ok.mpr hget)).trans
              ((outcome_bind_of_run (run_ofResult_eq_ok.mpr ⟨hdecode, rfl⟩)).trans
                (run_eq_ok_iff.mp (run_ofResult_eq_ok.mpr ⟨hunpack, rfl⟩)).1)

end Reading

section Writing

variable {ext : Externals} {layout : BadouDataLayout} {codec : Codec}
variable {provider : BaDouProvider} {s s' : ServerState} {r : RepositoryId}
variable {w : ManifestWrite}

/-- The commit of a manifest as the server parses it. -/
def commitArgs (provider : BaDouProvider) (r : RepositoryId)
    (draws : ManifestDraws) (v : VersionId) (hashHex : String) :
    Server.CommitArgs where
  repoId := r
  parentVersionId := none
  snapshotMeta := provider.commitMeta draws v hashHex
  manifest := commitManifest draws
  chunkHashes := []

theorem parseCommit_commitRequest {draws : ManifestDraws} {v : VersionId}
    {hashHex : String}
    (hrepo : Convert.parseRepoId ext provider.repoId = .ok r) :
    Server.parseCommit ext (provider.commitRequest draws v hashHex).inner =
      .ok (commitArgs provider r draws v hashHex) := by
  simp only [Server.parseCommit, commitRequest, hrepo]
  rfl

/-- The snapshot that is sealed for a manifest. -/
def sealedFor (ext : Externals) (codec : Codec) (provider : BaDouProvider)
    (r : RepositoryId) (w : ManifestWrite) : Snapshot :=
  RecoveryEngine.sealedSnapshot ext w.draws.request
    (commitArgs provider r w.draws w.versionId
      (packedChunk ext codec w.manifest).1.toHex)

theorem root_sealedFor : (sealedFor ext codec provider r w).fileTree.root =
    (packedChunk ext codec w.manifest).1.toHex :=
  rfl

theorem versionId_sealedFor (huuid : Server.ReadsUuids ext) :
    (sealedFor ext codec provider r w).versionId = w.versionId := by
  have hparse : Convert.parseVersionId ext (uuidText w.versionId.uuid) =
      .ok w.versionId := by
    rw [Convert.parseVersionId, huuid]
  change Server.storedVersionId ext w.draws.request (commitArgs provider r w.draws
    w.versionId (packedChunk ext codec w.manifest).1.toHex) = w.versionId
  have hparse' : Convert.parseVersionId ext (commitArgs provider r w.draws
      w.versionId (packedChunk ext codec w.manifest).1.toHex).snapshotMeta.versionId =
        .ok w.versionId := hparse
  simp only [Server.storedVersionId, hparse']

/-- A manifest is written if it can be compressed, the provider may write, and
the commit is answered after the upload. -/
theorem run_writeManifest_eq_ok_iff :
    (writeManifest reliable ext layout codec provider w.draws w.versionId
        w.manifest).run s = .ok () s' ↔
      (∃ data, codec.encodeAll (codec.manifestToVec w.manifest) = .ok data) ∧
      ∃ r response, WritesTo ext provider s r ∧
        outcome (Server.snapshotCommit ext layout w.draws.request
            (provider.commitRequest w.draws w.versionId
              (packedChunk ext codec w.manifest).1.toHex))
          (Server.withChunk layout r (packedChunk ext codec w.manifest).1
            (packed codec w.manifest) s) = .ok response ∧
        s' = stateAfter (Server.snapshotCommit ext layout w.draws.request
            (provider.commitRequest w.draws w.versionId
              (packedChunk ext codec w.manifest).1.toHex))
          (Server.withChunk layout r (packedChunk ext codec w.manifest).1
            (packed codec w.manifest) s) := by
  unfold writeManifest packedChunk packed
  constructor
  · intro hrun
    obtain ⟨data, s₁, hencode, hrun₁⟩ := run_bind_eq_ok.mp hrun
    obtain ⟨hdata, rfl⟩ := run_ofResult_eq_ok.mp hencode
    obtain ⟨info, s₂, hput, hrun₂⟩ := run_bind_eq_ok.mp hrun₁
    obtain ⟨response, s₃, hcommit, hend⟩ := run_bind_eq_ok.mp hrun₂
    cases hend
    obtain ⟨houtcome, hafter⟩ := run_eq_ok_iff.mp (run_reliable_eq_ok.mp hput)
    obtain ⟨⟨r, hash, d⟩, htarget⟩ := Server.exists_putTarget houtcome
    obtain ⟨hwrites, rfl, rfl⟩ := putTarget_putRequest.mp htarget
    rw [Server.stateAfter_chunkPut, htarget] at hafter
    obtain ⟨hanswer, hstate⟩ := run_eq_ok_iff.mp (run_reliable_eq_ok.mp hcommit)
    rw [hdata]
    subst hafter
    exact ⟨⟨_, rfl⟩, r, response, hwrites, hanswer, hstate.symm⟩
  · rintro ⟨⟨data, hdata⟩, r, response, hwrites, hanswer, rfl⟩
    rw [hdata] at hanswer ⊢
    obtain ⟨info, hput⟩ := @Server.run_chunkPut ext layout s r _ _ _
      (putTarget_putRequest.mpr ⟨hwrites, rfl, rfl⟩)
    exact (run_bind_of_ok (run_ofResult_eq_ok.mpr ⟨rfl, rfl⟩)).trans
      ((run_bind_of_ok (run_reliable_eq_ok.mpr hput)).trans
        (run_bind_of_ok (run_reliable_eq_ok.mpr
          (run_eq_ok_iff.mpr ⟨hanswer, rfl⟩))))

/-- A manifest that is written was committed after its upload. -/
theorem commit_of_run (hwrites : WritesTo ext provider s r)
    (hrun : (writeManifest reliable ext layout codec provider w.draws w.versionId
      w.manifest).run s = .ok () s') :
    ∃ response,
      Server.parseCommit ext (provider.commitRequest w.draws w.versionId
          (packedChunk ext codec w.manifest).1.toHex).inner =
        .ok (commitArgs provider r w.draws w.versionId
          (packedChunk ext codec w.manifest).1.toHex) ∧
      outcome (Server.snapshotCommit ext layout w.draws.request
          (provider.commitRequest w.draws w.versionId
            (packedChunk ext codec w.manifest).1.toHex))
        (Server.withChunk layout r (packedChunk ext codec w.manifest).1
          (packed codec w.manifest) s) = .ok response ∧
      s' = stateAfter (Server.snapshotCommit ext layout w.draws.request
          (provider.commitRequest w.draws w.versionId
            (packedChunk ext codec w.manifest).1.toHex))
        (Server.withChunk layout r (packedChunk ext codec w.manifest).1
          (packed codec w.manifest) s) := by
  obtain ⟨-, r', response, hwrites', hanswer, hstate⟩ :=
    run_writeManifest_eq_ok_iff.mp hrun
  obtain rfl := hwrites.unique hwrites'
  exact ⟨response, parseCommit_commitRequest hwrites.parsed, hanswer, hstate⟩

/-- What writing a manifest does to the repository. -/
structure Wrote (ext : Externals) (layout : BadouDataLayout) (codec : Codec)
    (provider : BaDouProvider) (r : RepositoryId) (w : ManifestWrite)
    (s s' : ServerState) : Prop where
  writes : WritesTo ext provider s' r
  store : (Server.repoState s' r).store =
    stateAfter (ChunkStore.writeChunk layout r
      (packedChunk ext codec w.manifest).1 (packed codec w.manifest))
      (Server.repoState s r).store
  versionIds : s'.versionOps.versionIds r =
    s.versionOps.versionIds r ++ [w.committedVersion]
  snapshotIds : w.committedVersion ∉ s.versionOps.versionIds r →
    s'.versionOps.snapshotIds r =
      s.versionOps.snapshotIds r ++ [w.committedSnapshot]
  snapshots : ∀ id, (Server.repoState s' r).catalog.snapshots.lookup
      (SnapshotStore.snapshotName id) =
    if id = w.committedSnapshot then
      some (ext.json.snapshotToVec (sealedFor ext codec provider r w))
    else (Server.repoState s r).catalog.snapshots.lookup
      (SnapshotStore.snapshotName id)
  staging : ∀ u, (Server.repoState s' r).catalog.staging.lookup u =
    if u = w.committedVersion.uuid then none
    else (Server.repoState s r).catalog.staging.lookup u

theorem wrote_of_run (hwrites : WritesTo ext provider s r)
    (hrun : (writeManifest reliable ext layout codec provider w.draws w.versionId
      w.manifest).run s = .ok () s') :
    Wrote ext layout codec provider r w s s' := by
  obtain ⟨response, hparse, hanswer, rfl⟩ := commit_of_run hwrites hrun
  have hchunk : WritesTo ext provider
      (Server.withChunk layout r (packedChunk ext codec w.manifest).1
        (packed codec w.manifest) s) r :=
    hwrites.withChunk
  constructor
  · exact ⟨hwrites.authorized, hwrites.parsed,
      Server.isSome_lookup_snapshotCommit hchunk.known⟩
  · rw [Server.store_snapshotCommit_of_nil hparse rfl, Server.withChunk,
      Server.repoState_setRepo, if_pos rfl]
  · rw [Server.versionIds_of_answer hparse hanswer, commitArgs, if_pos rfl]
    rfl
  · intro hfresh
    rw [Server.snapshotIds_of_answer hparse hanswer hfresh, commitArgs, if_pos rfl]
    rfl
  · intro id
    rw [Server.lookup_snapshot_of_answer hparse hanswer, Server.withChunk,
      Server.repoState_setRepo, if_pos rfl]
    simp only [commitArgs, true_and]
    rfl
  · intro u
    rw [Server.lookup_staging_of_answer (r := r) hparse hanswer rfl,
      Server.withChunk,
      Server.repoState_setRepo, if_pos rfl]
    rfl

/-- A write is answered if the manifest can be compressed, no staging area of
its version is left over, and its snapshot can be read back. -/
theorem outcome_writeManifest {data : Bytes} {snapshot : Snapshot}
    (hwrites : WritesTo ext provider s r)
    (hencode : codec.encodeAll (codec.manifestToVec w.manifest) = .ok data)
    (hfree : (Server.repoState s r).catalog.staging.lookup
      w.committedVersion.uuid = none)
    (hjson : ext.json.snapshotFromSlice
      (ext.json.snapshotToVec (sealedFor ext codec provider r w)) =
        .ok snapshot) :
    outcome (writeManifest reliable ext layout codec provider w.draws w.versionId
      w.manifest) s = .ok () := by
  have hstaging : (Server.repoState (Server.withChunk layout r
      (packedChunk ext codec w.manifest).1 (packed codec w.manifest) s)
        r).catalog.staging.lookup w.committedVersion.uuid = none := by
    rw [Server.withChunk, Server.repoState_setRepo, if_pos rfl]
    exact hfree
  have hadmits : CommitBackup.Admits
      (Server.commitState (Server.withChunk layout r
        (packedChunk ext codec w.manifest).1 (packed codec w.manifest) s) r)
      none w.committedVersion :=
    ⟨by simp, hstaging⟩
  obtain ⟨response, hanswer⟩ := @RecoveryEngine.exists_answer ext layout
    (Server.withChunk layout r (packedChunk ext codec w.manifest).1
      (packed codec w.manifest) s) w.draws.request
    (provider.commitRequest w.draws w.versionId
      (packedChunk ext codec w.manifest).1.toHex) _ hwrites.authorized
    (parseCommit_commitRequest hwrites.parsed) hwrites.withChunk.known
    (CommitBackup.outcome_commitBackup.mpr ⟨hadmits, rfl⟩) snapshot hjson
  exact (run_eq_ok_iff.mp (run_writeManifest_eq_ok_iff.mpr
    ⟨⟨data, hencode⟩, r, response, hwrites, hanswer, rfl⟩)).1

end Writing

section History

variable {ext : Externals} {layout : BadouDataLayout} {codec : Codec}
variable {provider : BaDouProvider} {s₀ s : ServerState} {r : RepositoryId}
variable {ws : List ManifestWrite} {w : ManifestWrite}

/-- The identifiers the server draws are new. -/
structure Fresh (s₀ : ServerState) (r : RepositoryId)
    (ws : List ManifestWrite) : Prop where
  versions : (ws.map ManifestWrite.committedVersion).Nodup
  newVersions : ∀ w ∈ ws, w.committedVersion ∉ s₀.versionOps.versionIds r
  snapshots : (ws.map ManifestWrite.committedSnapshot).Nodup
  newSnapshots : ∀ w ∈ ws, w.committedSnapshot ∉ s₀.versionOps.snapshotIds r

/-- What a sequence of writes has made of the repository. -/
structure After (ext : Externals) (layout : BadouDataLayout) (codec : Codec)
    (provider : BaDouProvider) (r : RepositoryId) (s₀ : ServerState)
    (ws : List ManifestWrite) (s : ServerState) : Prop where
  writes : WritesTo ext provider s r
  store : (Server.repoState s r).store =
    stateAfter (ChunkStore.writeChunks layout r
      (ws.map fun w => packedChunk ext codec w.manifest))
      (Server.repoState s₀ r).store
  versionIds : s.versionOps.versionIds r =
    s₀.versionOps.versionIds r ++ ws.map ManifestWrite.committedVersion
  snapshotIds : s.versionOps.snapshotIds r =
    s₀.versionOps.snapshotIds r ++ ws.map ManifestWrite.committedSnapshot
  published : ∀ w ∈ ws, (Server.repoState s r).catalog.snapshots.lookup
      (SnapshotStore.snapshotName w.committedSnapshot) =
    some (ext.json.snapshotToVec (sealedFor ext codec provider r w))
  kept : ∀ id, id ∉ ws.map ManifestWrite.committedSnapshot →
    (Server.repoState s r).catalog.snapshots.lookup
        (SnapshotStore.snapshotName id) =
      (Server.repoState s₀ r).catalog.snapshots.lookup
        (SnapshotStore.snapshotName id)

theorem written_append (ws : List ManifestWrite) (w : ManifestWrite) :
    ∀ s, Written ext layout codec provider s (ws ++ [w]) ↔
      Written ext layout codec provider s ws ∧
        outcome (writeManifest reliable ext layout codec provider w.draws
          w.versionId w.manifest)
          (writeAll ext layout codec provider s ws) = .ok () := by
  induction ws with
  | nil =>
      intro s
      simp [Written, writeAll]
  | cons v ws ih =>
      intro s
      simp only [List.cons_append, Written, ih, and_assoc]
      rfl

theorem Fresh.init (h : Fresh s₀ r (ws ++ [w])) : Fresh s₀ r ws where
  versions := by
    have hnodup := h.versions
    rw [List.map_append] at hnodup
    exact hnodup.of_append_left
  newVersions := fun w' hw' => h.newVersions w' (List.mem_append_left _ hw')
  snapshots := by
    have hnodup := h.snapshots
    rw [List.map_append] at hnodup
    exact hnodup.of_append_left
  newSnapshots := fun w' hw' => h.newSnapshots w' (List.mem_append_left _ hw')

/-- One more write. -/
theorem After.concat {s' : ServerState} (hfresh : Fresh s₀ r (ws ++ [w]))
    (h : After ext layout codec provider r s₀ ws s)
    (hwrote : Wrote ext layout codec provider r w s s') :
    After ext layout codec provider r s₀ (ws ++ [w]) s' := by
  have hversion : w.committedVersion ∉ s.versionOps.versionIds r := by
    have hnodup := hfresh.versions
    rw [List.map_append, List.map_singleton, List.nodup_append] at hnodup
    rw [h.versionIds, List.mem_append, not_or]
    refine ⟨hfresh.newVersions w (by simp), fun hmem => ?_⟩
    exact hnodup.2.2 _ hmem _ (List.mem_singleton_self _) rfl
  have hsnapshot : w.committedSnapshot ∉
      ws.map ManifestWrite.committedSnapshot := by
    have hnodup := hfresh.snapshots
    rw [List.map_append, List.map_singleton, List.nodup_append] at hnodup
    exact fun hmem => hnodup.2.2 _ hmem _ (List.mem_singleton_self _) rfl
  constructor
  · exact hwrote.writes
  · rw [hwrote.store, h.store, List.map_append,
      ChunkStore.stateAfter_writeChunks, ChunkStore.stateAfter_writeChunks,
      List.foldl_append]
    rfl
  · rw [hwrote.versionIds, h.versionIds, List.append_assoc, List.map_append]
    rfl
  · rw [hwrote.snapshotIds hversion, h.snapshotIds, List.append_assoc,
      List.map_append]
    rfl
  · intro w' hw'
    rw [hwrote.snapshots]
    rcases List.mem_append.mp hw' with hold | hlast
    · have hne : w'.committedSnapshot ≠ w.committedSnapshot := by
        intro heq
        exact hsnapshot (heq ▸ List.mem_map_of_mem hold)
      rw [if_neg hne]
      exact h.published w' hold
    · rw [List.mem_singleton.mp hlast, if_pos rfl]
  · intro id hid
    rw [List.map_append, List.mem_append, not_or, List.map_singleton,
      List.mem_singleton] at hid
    rw [hwrote.snapshots, if_neg hid.2]
    exact h.kept id hid.1

/-- All writes of a sequence. -/
theorem after_writeAll (hwrites : WritesTo ext provider s₀ r)
    (ws : List ManifestWrite) (hfresh : Fresh s₀ r ws)
    (hwritten : Written ext layout codec provider s₀ ws) :
    After ext layout codec provider r s₀ ws
      (writeAll ext layout codec provider s₀ ws) := by
  induction ws using List.reverseRecOn with
  | nil =>
      refine ⟨hwrites, ?_, ?_, ?_, ?_, fun _ _ => rfl⟩
      · rw [ChunkStore.stateAfter_writeChunks]
        rfl
      · exact (List.append_nil _).symm
      · exact (List.append_nil _).symm
      · simp
  | append_singleton ws w ih =>
      obtain ⟨hinit, hlast⟩ := (written_append ws w s₀).mp hwritten
      have hafter := ih hfresh.init hinit
      have hwrote := wrote_of_run hafter.writes (run_eq_ok_iff.mpr ⟨hlast, rfl⟩)
      rw [writeAll, List.foldl_append]
      exact hafter.concat hfresh hwrote

end History

section Lookup

variable {ext : Externals} {layout : BadouDataLayout} {codec : Codec}
variable {provider : BaDouProvider} {s₀ s : ServerState} {r : RepositoryId}
variable {ws : List ManifestWrite}

/-- The snapshots of the writes are read back as they were sealed. -/
def ReadsSealed (ext : Externals) (codec : Codec) (provider : BaDouProvider)
    (r : RepositoryId) (ws : List ManifestWrite) : Prop :=
  ∀ w ∈ ws, ext.json.snapshotFromSlice
      (ext.json.snapshotToVec (sealedFor ext codec provider r w)) =
    .ok (sealedFor ext codec provider r w)

/-- Of the snapshots that are listed, the old ones are as before, and the new
ones are those of the writes that are among the first hundred versions. -/
theorem listed_after (hfresh : Fresh s₀ r ws)
    (hjson : ReadsSealed ext codec provider r ws)
    (hafter : After ext layout codec provider r s₀ ws s) :
    listed ext s r = listed ext s₀ r ++
      (ws.take (100 - (s₀.versionOps.listVersions r).length)).map
        (sealedFor ext codec provider r) := by
  have hold : ∀ id ∈ (s₀.versionOps.snapshotIds r).take 100,
      SnapshotStore.readSnapshot ext.json (Server.repoState s r).catalog id =
        SnapshotStore.readSnapshot ext.json (Server.repoState s₀ r).catalog id := by
    intro id hid
    have hnew : id ∉ ws.map ManifestWrite.committedSnapshot := by
      intro hmem
      obtain ⟨w, hw, rfl⟩ := List.mem_map.mp hmem
      exact hfresh.newSnapshots w hw (List.mem_of_mem_take hid)
    unfold SnapshotStore.readSnapshot
    rw [hafter.kept id hnew]
  have hnew : ∀ w ∈ ws, SnapshotStore.readSnapshot ext.json
      (Server.repoState s r).catalog w.committedSnapshot =
        .ok (sealedFor ext codec provider r w) := by
    intro w hw
    exact SnapshotStore.readSnapshot_of_lookup (hafter.published w hw) (hjson w hw)
  have hlength : (s₀.versionOps.snapshotIds r).length =
      (s₀.versionOps.listVersions r).length :=
    List.length_map _
  have hids : ∀ s : ServerState, ((s.versionOps.listVersions r).take 100).map
      Version.snapshotId = (s.versionOps.snapshotIds r).take 100 :=
    fun _ => List.map_take
  simp only [listed, Server.readSnapshots_eq, hids]
  rw [hafter.snapshotIds, List.take_append, List.filterMap_append, hlength,
    ← List.map_take, List.filterMap_map]
  congr 1
  · refine List.filterMap_congr fun id hid => ?_
    rw [hold id hid]
  · rw [← List.filterMap_eq_map]
    refine List.filterMap_congr fun w hw => ?_
    rw [Function.comp_apply, hnew w (List.mem_of_mem_take hw)]
    rfl

/-- Under distinct names, a beginning of the list has the named element if it
reaches that far. -/
theorem find?_take_of_nodup {i k : Nat} {w : ManifestWrite}
    (hdistinct : (ws.map ManifestWrite.versionId).Nodup) (hi : ws[i]? = some w) :
    ((ws.take k).find? fun w' => w'.versionId = w.versionId) =
      if i < k then some w else none := by
  obtain ⟨hlen, rfl⟩ := List.getElem?_eq_some_iff.mp hi
  have hunique : ∀ j (hj : j < ws.length),
      ws[j].versionId = ws[i].versionId → j = i := by
    intro j hj heq
    have hmap : (ws.map ManifestWrite.versionId)[j]? =
        (ws.map ManifestWrite.versionId)[i]? := by
      simp [hj, hlen, heq]
    exact (List.getElem?_inj (by simpa using hj) hdistinct).mp hmap
  split
  · next hlt =>
      rw [List.find?_eq_some_iff_getElem]
      refine ⟨by simp, i, by simp [hlt, hlen], by simp, fun j hj => ?_⟩
      have hne : ws[j].versionId ≠ ws[i].versionId :=
        fun heq => absurd (hunique j (by omega) heq) (by omega)
      simpa using hne
  · next hge =>
      rw [List.find?_eq_none]
      intro w' hw'
      obtain ⟨j, hj, rfl⟩ := List.mem_take_iff_getElem.mp hw'
      have hne : ws[j].versionId ≠ ws[i].versionId :=
        fun heq => absurd (hunique j (by omega) heq) (by omega)
      simpa using hne

/-- A file tree root leads to the manifest: what is first stored under its hash
is read as that manifest. -/
def Leads (ext : Externals) (codec : Codec) (st : Store)
    (chunks : List (ChunkHash × Bytes)) (root : String) (m : Agent.Manifest) :
    Prop :=
  ∃ h data, Convert.parseHash root = .ok h ∧
    ChunkStore.firstStored ext.blake3 st chunks h = some data ∧
    unpack codec data = .ok m

/-- The write with the given number can be found again.  If a snapshot of its
version was listed before, that one leads to the manifest; else the version is
among the first hundred of the repository, and the data it was uploaded as
are those first stored under their hash. -/
def Retrievable (ext : Externals) (codec : Codec) (s₀ : ServerState)
    (r : RepositoryId) (ws : List ManifestWrite) (i : Nat) (w : ManifestWrite) :
    Prop :=
  let chunks := ws.map fun w => packedChunk ext codec w.manifest
  match (listed ext s₀ r).find? fun snap => snap.versionId = w.versionId with
  | some snap =>
      Leads ext codec (Server.repoState s₀ r).store chunks snap.fileTree.root
        w.manifest
  | none =>
      (s₀.versionOps.listVersions r).length + i < 100 ∧
        Leads ext codec (Server.repoState s₀ r).store chunks
          (packedChunk ext codec w.manifest).1.toHex w.manifest

/-- After answered writes under distinct version identifiers, a manifest is
read back exactly if its write can be found again. -/
theorem readManifest_writeAll_iff (huuid : Server.ReadsUuids ext)
    (haddressed : (Server.repoState s₀ r).store.Addressed layout r)
    (hwrites : WritesTo ext provider s₀ r) (hfresh : Fresh s₀ r ws)
    (hjson : ReadsSealed ext codec provider r ws)
    (hdistinct : (ws.map ManifestWrite.versionId).Nodup)
    (hwritten : Written ext layout codec provider s₀ ws) {i : Nat}
    {w : ManifestWrite} (hi : ws[i]? = some w) :
    outcome (readManifest reliable ext codec provider w.versionId)
        (writeAll ext layout codec provider s₀ ws) = .ok w.manifest ↔
      Retrievable ext codec s₀ r ws i w := by
  have hafter := after_writeAll hwrites ws hfresh hwritten
  have hlisted := listed_after hfresh hjson hafter
  have hhashed : ∀ c ∈ ws.map fun w => packedChunk ext codec w.manifest,
      ext.blake3 c.2 = c.1 := by
    intro c hc
    obtain ⟨w, -, rfl⟩ := List.mem_map.mp hc
    rfl
  have hlt : i < 100 - (s₀.versionOps.listVersions r).length ↔
      (s₀.versionOps.listVersions r).length + i < 100 := by
    omega
  rw [outcome_readManifest_eq_ok_iff hafter.writes.reads, hlisted,
    List.find?_append, List.find?_map, hafter.store]
  simp only [ChunkStore.readChunk_writeChunks_iff haddressed hhashed,
    Function.comp_def, versionId_sealedFor huuid,
    find?_take_of_nodup hdistinct hi, Retrievable, Leads]
  cases (listed ext s₀ r).find? fun snap => snap.versionId = w.versionId with
  | some snap =>
      simp
  | none =>
      by_cases hfirst : (s₀.versionOps.listVersions r).length + i < 100
      · simp [hlt, hfirst, root_sealedFor]
      · simp [hlt, hfirst]

/-- Every manifest is read back exactly if every write can be found again. -/
theorem readBack_iff (huuid : Server.ReadsUuids ext)
    (haddressed : (Server.repoState s₀ r).store.Addressed layout r)
    (hwrites : WritesTo ext provider s₀ r) (hfresh : Fresh s₀ r ws)
    (hjson : ReadsSealed ext codec provider r ws)
    (hdistinct : (ws.map ManifestWrite.versionId).Nodup)
    (hwritten : Written ext layout codec provider s₀ ws) :
    ReadBack ext codec provider (writeAll ext layout codec provider s₀ ws) ws ↔
      ∀ i w, ws[i]? = some w → Retrievable ext codec s₀ r ws i w := by
  constructor
  · intro hread i w hi
    exact (readManifest_writeAll_iff huuid haddressed hwrites hfresh hjson
      hdistinct hwritten hi).mp (hread w (List.mem_of_getElem? hi))
  · intro hretrievable w hw
    obtain ⟨i, hi⟩ := List.mem_iff_getElem?.mp hw
    exact (readManifest_writeAll_iff huuid haddressed hwrites hfresh hjson
      hdistinct hwritten hi).mpr (hretrievable i w hi)

/-- Writes are answered if the manifests can be compressed and no staging areas
are left over. -/
theorem written_of_free
    (hencode : ∀ w ∈ ws, ∃ data,
      codec.encodeAll (codec.manifestToVec w.manifest) = .ok data)
    (hjson : ReadsSealed ext codec provider r ws) :
    ∀ {s}, WritesTo ext provider s r →
      (∀ w ∈ ws, (Server.repoState s r).catalog.staging.lookup
        w.committedVersion.uuid = none) →
      Written ext layout codec provider s ws := by
  induction ws with
  | nil =>
      intro s _ _
      trivial
  | cons w ws ih =>
      intro s hwrites hfree
      obtain ⟨data, hdata⟩ := hencode w List.mem_cons_self
      have hanswer := @outcome_writeManifest ext layout codec provider s r w data
        (sealedFor ext codec provider r w) hwrites hdata
        (hfree w List.mem_cons_self) (hjson w List.mem_cons_self)
      have hwrote := wrote_of_run hwrites (run_eq_ok_iff.mpr ⟨hanswer, rfl⟩)
      refine ⟨hanswer, ih (fun w' hw' => hencode w' (List.mem_cons_of_mem _ hw'))
        (fun w' hw' => hjson w' (List.mem_cons_of_mem _ hw')) hwrote.writes ?_⟩
      intro w' hw'
      rw [writeOne, hwrote.staging]
      split
      · rfl
      · exact hfree w' (List.mem_cons_of_mem _ hw')

end Lookup

section Example

variable (blake3 : Bytes → ChunkHash) (codec : Codec)

/-- The manifest of a backup of nothing. -/
def emptyManifest : Agent.Manifest where
  versionId := ⟨0⟩
  timestamp := 0
  parentVersionId := none
  versionNumber := 1
  backupType := .full
  files := []
  chunkRefs := []
  hashes :=
    { manifestHash := Agent.zeroDigest, fileIndexHash := Agent.zeroDigest
      chunkIndexHash := Agent.zeroDigest, repoHash := Agent.zeroDigest }
  chunkLocations := ∅

/-- The manifest of a backup of nothing for one of many versions. -/
def nthWrite (i : Nat) : ManifestWrite where
  draws :=
    { snapshotId := 0, manifestId := 0, now := 0
      request := Server.drawsFrom (10 * i + 10) }
  versionId := ⟨BitVec.ofNat 128 i⟩
  manifest := emptyManifest

def nthWrites (n : Nat) : List ManifestWrite :=
  (List.range n).map nthWrite

/-- The server with a JSON reader that knows some snapshots. -/
def knowing (known : List Snapshot) : Externals where
  blake3 := blake3
  parseUuid := uuidOfText
  json := Json.withReaders
    (fun _ => .error "EOF while parsing a value at line 1 column 0")
    (Json.readerOf known)

/-- The snapshots of the writes, and the server that knows them. -/
def nthSnapshots (n : Nat) : List Snapshot :=
  (nthWrites n).map (sealedFor (knowing blake3 []) codec operator ⟨1#128⟩)

def knowingAll (n : Nat) : Externals :=
  knowing blake3 (nthSnapshots blake3 codec n)

variable {blake3 : Bytes → ChunkHash} {codec : Codec}

theorem readsUuids_knowing (known : List Snapshot) :
    Server.ReadsUuids (knowing blake3 known) := by
  intro u
  simp only [knowing]
  exact uuidOfText_uuidText u

/-- Numbers of that size are different identifiers. -/
theorem ofNat_inj {a b : Nat} (ha : a < 2 ^ 64) (hb : b < 2 ^ 64)
    (h : BitVec.ofNat 128 a = BitVec.ofNat 128 b) : a = b := by
  have htoNat := congrArg BitVec.toNat h
  rw [BitVec.toNat_ofNat, BitVec.toNat_ofNat, Nat.mod_eq_of_lt (by omega),
    Nat.mod_eq_of_lt (by omega)] at htoNat
  exact htoNat

theorem nodup_nthWrites {α : Type} (f : ManifestWrite → α) {n : Nat}
    (h : ∀ i < n, ∀ j < n, f (nthWrite i) = f (nthWrite j) → i = j) :
    ((nthWrites n).map f).Nodup := by
  rw [nthWrites, List.map_map]
  refine List.Nodup.map_on ?_ List.nodup_range
  intro i hi j hj heq
  exact h i (List.mem_range.mp hi) j (List.mem_range.mp hj) heq

theorem distinct_nthWrites {n : Nat} (hn : n ≤ 2 ^ 32) :
    ((nthWrites n).map ManifestWrite.versionId).Nodup := by
  refine nodup_nthWrites _ fun i hi j hj heq => ?_
  exact ofNat_inj (by omega) (by omega) (congrArg VersionId.uuid heq)

theorem fresh_nthWrites {n : Nat} (hn : n ≤ 2 ^ 32) :
    Fresh (Server.new [⟨1#128⟩]) ⟨1#128⟩ (nthWrites n) where
  versions := by
    refine nodup_nthWrites _ fun i hi j hj heq => ?_
    have hnumbers : 10 * i + 10 + 4 = 10 * j + 10 + 4 :=
      ofNat_inj (by omega) (by omega) (congrArg VersionId.uuid heq)
    omega
  newVersions := by
    intro w _ hmem
    cases hmem
  snapshots := by
    refine nodup_nthWrites _ fun i hi j hj heq => ?_
    have hnumbers : 10 * i + 10 + 5 = 10 * j + 10 + 5 :=
      ofNat_inj (by omega) (by omega) heq
    omega
  newSnapshots := by
    intro w _ hmem
    cases hmem

/-- What is sealed does not depend on what the reader knows. -/
theorem sealedFor_knowing {provider : BaDouProvider} {r : RepositoryId}
    (known : List Snapshot) (w : ManifestWrite) :
    sealedFor (knowing blake3 known) codec provider r w =
      sealedFor (knowing blake3 []) codec provider r w := by
  simp only [sealedFor, RecoveryEngine.sealedSnapshot,
    CommitBackup.committedSnapshot, computeHash, encodeManifest, packedChunk,
    Server.buildManifest, Server.buildSnapshot, Convert.parseUuid,
    Convert.parseVersionId, knowing, Json.withReaders]

theorem snapshotId_sealedFor {ext : Externals} {provider : BaDouProvider}
    {r : RepositoryId} (w : ManifestWrite) :
    (sealedFor ext codec provider r w).snapshotId = w.committedSnapshot :=
  rfl

theorem nodup_nthSnapshots {n : Nat} (hn : n ≤ 2 ^ 32) :
    ((nthSnapshots blake3 codec n).map Snapshot.snapshotId).Nodup := by
  rw [nthSnapshots, List.map_map]
  simp only [Function.comp_def, snapshotId_sealedFor]
  exact (fresh_nthWrites hn).snapshots

/-- A snapshot that the reader knows is read back. -/
theorem snapshotFromSlice_knowing {provider : BaDouProvider} {r : RepositoryId}
    {known : List Snapshot} {w : ManifestWrite}
    (hdistinct : (known.map Snapshot.snapshotId).Nodup)
    (hmem : sealedFor (knowing blake3 []) codec provider r w ∈ known) :
    (knowing blake3 known).json.snapshotFromSlice
        ((knowing blake3 known).json.snapshotToVec
          (sealedFor (knowing blake3 known) codec provider r w)) =
      .ok (sealedFor (knowing blake3 known) codec provider r w) := by
  rw [sealedFor_knowing]
  simp only [knowing, Json.withReaders_snapshotFromSlice,
    Json.withReaders_snapshotToVec]
  exact Json.readerOf_eq hdistinct hmem

theorem readsSealed_nthWrites {n : Nat} (hn : n ≤ 2 ^ 32) :
    ReadsSealed (knowingAll blake3 codec n) codec operator ⟨1#128⟩
      (nthWrites n) := by
  intro w hw
  have hmem : sealedFor (knowing blake3 []) codec operator ⟨1#128⟩ w ∈
      nthSnapshots blake3 codec n :=
    List.mem_map_of_mem hw
  exact snapshotFromSlice_knowing (nodup_nthSnapshots hn) hmem

theorem writesTo_knowingAll {n : Nat} :
    WritesTo (knowingAll blake3 codec n) operator (Server.new [⟨1#128⟩])
      ⟨1#128⟩ where
  authorized := rfl
  parsed := by
    simp only [Convert.parseRepoId, knowingAll, knowing, operator,
      Server.uuidOfText_one]
  known := by decide

theorem written_nthWrites {layout : BadouDataLayout} {n : Nat} (hn : n ≤ 2 ^ 32)
    (hencode : ∀ data, ∃ compressed, codec.encodeAll data = .ok compressed) :
    Written (knowingAll blake3 codec n) layout codec operator
      (Server.new [⟨1#128⟩]) (nthWrites n) := by
  refine written_of_free (fun w _ => hencode _) (readsSealed_nthWrites hn)
    writesTo_knowingAll ?_
  intro w _
  rw [Server.repoState_new]
  rfl

/-- In a new repository the first hundred writes can be found again. -/
theorem retrievable_new_iff {ext : Externals} {repoIds : List RepositoryId}
    {r : RepositoryId} {ws : List ManifestWrite} {i : Nat} {w : ManifestWrite} :
    Retrievable ext codec (Server.new repoIds) r ws i w ↔
      i < 100 ∧ Leads ext codec OpenRepo.empty.store
        (ws.map fun w => packedChunk ext codec w.manifest)
        (packedChunk ext codec w.manifest).1.toHex w.manifest := by
  have hversions : (Server.new repoIds).versionOps.listVersions r = [] := rfl
  have hlisted : listed ext (Server.new repoIds) r = [] := rfl
  simp only [Retrievable, hlisted, hversions, List.find?_nil, List.length_nil,
    Nat.zero_add, Server.repoState_new]

/-- The first hundred and one manifests are written to a new repository, and
the last of them cannot be read, whatever hash, JSON and compression do. -/
theorem hundred_and_first_lost :
    ¬ ∃ (blake3 : Bytes → ChunkHash) (codec : Codec),
      (∀ data, ∃ compressed, codec.encodeAll data = .ok compressed) ∧
      (Written (knowingAll blake3 codec 101) ⟨"/data"⟩ codec operator
          (Server.new [⟨1#128⟩]) (nthWrites 101) →
        ReadBack (knowingAll blake3 codec 101) codec operator
          (writeAll (knowingAll blake3 codec 101) ⟨"/data"⟩ codec operator
            (Server.new [⟨1#128⟩]) (nthWrites 101)) (nthWrites 101)) := by
  rintro ⟨blake3, codec, hencode, hback⟩
  have hwritten := @written_nthWrites blake3 codec ⟨"/data"⟩ 101 (by decide) hencode
  have hlast : (nthWrites 101)[100]? = some (nthWrite 100) := by
    simp [nthWrites]
  have hretrievable := (readManifest_writeAll_iff
    (readsUuids_knowing _) (addressed_new ⟨"/data"⟩ [⟨1#128⟩] _)
    writesTo_knowingAll (fresh_nthWrites (by decide))
    (readsSealed_nthWrites (by decide)) (distinct_nthWrites (by decide))
    hwritten hlast).mp (hback hwritten _ (List.mem_of_getElem? hlast))
  exact absurd (retrievable_new_iff.mp hretrievable).1 (by decide)

/-- The manifest of a backup of nothing, compressed. -/
def emptyPacked : Bytes := [
  0x28, 0xb5, 0x2f, 0xfd, 0x00, 0x58, 0x6d, 0x05, 0x00, 0x82, 0xca, 0x20,
  0x1c, 0x70, 0x17, 0x56, 0x07, 0xe8, 0x43, 0x22, 0xb3, 0x6d, 0x8a, 0xc0,
  0x09, 0xa0, 0xe0, 0x77, 0x1f, 0xd3, 0x9c, 0xb0, 0x8a, 0x10, 0x76, 0xa9,
  0xb3, 0x00, 0xa8, 0x7a, 0x42, 0xcb, 0xa2, 0xe8, 0x9b, 0x1f, 0x93, 0xca,
  0x78, 0x6d, 0x79, 0x70, 0xa3, 0xc1, 0x1e, 0xcc, 0x12, 0x61, 0xce, 0xa0,
  0x5f, 0xad, 0x56, 0x92, 0xbd, 0x08, 0x63, 0xe5, 0xae, 0xe8, 0x7b, 0x57,
  0xab, 0x85, 0x6c, 0x4c, 0x09, 0xcf, 0x65, 0xdc, 0x10, 0x83, 0xbe, 0xb7,
  0x31, 0xe4, 0xe6, 0xad, 0x4d, 0x81, 0xeb, 0x17, 0x1e, 0xc8, 0x04, 0x67,
  0x62, 0xa8, 0xe2, 0x06, 0xe9, 0xe3, 0x16, 0x6e, 0xb2, 0x69, 0x6d, 0x72,
  0x92, 0xbc, 0x51, 0xc1, 0x9b, 0x13, 0xe8, 0x39, 0x03, 0xe8, 0x08, 0xe8,
  0x08, 0x07, 0x20, 0x00, 0x5d, 0x0f, 0x9d, 0x92, 0xbd, 0x8e, 0xc9, 0x9b,
  0x0b, 0xe7, 0xfa, 0x83, 0x25, 0x7e, 0xac, 0xe3, 0x16, 0x5c, 0x09, 0x0e,
  0x00, 0x27, 0x23, 0x44, 0x99, 0x0c, 0x25, 0xc6, 0x02, 0xc1, 0xd0, 0x30,
  0x70, 0x57, 0xa0, 0xd2, 0x03, 0x76, 0x51, 0x4e, 0x3a, 0x9a, 0xc9, 0x70,
  0xc6, 0x42, 0x87, 0x98, 0x7d, 0xba, 0xe6, 0xe0, 0x05, 0x94, 0x74, 0x65,
  0x60, 0x09]

/-- The BLAKE3 hash of those data. -/
def emptyPackedHash : ChunkHash :=
  ⟨⟨[
    0x3c, 0xed, 0xa2, 0xa7, 0xa0, 0x1d, 0xea, 0x1b,
    0xea, 0x55, 0x17, 0x32, 0xe5, 0x08, 0xe6, 0x82,
    0x52, 0x63, 0x60, 0xb3, 0xd4, 0x42, 0x4e, 0x13,
    0x1e, 0xa7, 0xb8, 0x01, 0xab, 0xd7, 0x3c, 0xd1], rfl⟩⟩

/-- The BLAKE3 hash of the frame of the manifest the server makes for the
first write. -/
def firstFrameHash : ChunkHash :=
  ⟨⟨[
    0xbc, 0x78, 0x67, 0x35, 0x86, 0x80, 0xe4, 0x4a,
    0x23, 0x9f, 0x17, 0x12, 0x50, 0x97, 0xcd, 0x0c,
    0x0b, 0x52, 0x50, 0xd1, 0x5e, 0x6d, 0xdf, 0x15,
    0xbc, 0xfd, 0xa2, 0xef, 0x83, 0x77, 0xa2, 0xc0], rfl⟩⟩

/-- A function on data of which one value is known. -/
def knownAt {α : Type} (known : Bytes) (value : α) (other : Bytes → α)
    (data : Bytes) : α :=
  if data = known then value else other data

theorem knownAt_self {α : Type} (known : Bytes) (value : α) (other : Bytes → α) :
    knownAt known value other known = value :=
  if_pos rfl

/-- JSON and compression that know one manifest. -/
def knownCodec (toVec : Agent.Manifest → Bytes) (m : Agent.Manifest)
    (compressed : Bytes) : Codec :=
  { abcCodec with
    manifestToVec := toVec
    manifestFromSlice := knownAt (toVec m) (.ok m)
      fun _ => .error "EOF while parsing a value at line 1 column 0"
    encodeAll := knownAt (toVec m) (.ok compressed) .ok
    decodeAll := knownAt compressed (.ok (toVec m))
      fun _ => .error "Unknown frame descriptor" }

section Known

variable (toVec : Agent.Manifest → Bytes) (m : Agent.Manifest)
variable (compressed : Bytes)

theorem encodeAll_knownCodec (data : Bytes) :
    ∃ result, (knownCodec toVec m compressed).encodeAll data = .ok result := by
  simp only [knownCodec, knownAt]
  split
  · exact ⟨_, rfl⟩
  · exact ⟨_, rfl⟩

theorem packed_knownCodec :
    packed (knownCodec toVec m compressed) m = compressed := by
  simp only [packed, knownCodec, knownAt_self, Except.toOption,
    Option.getD_some]

theorem unpack_knownCodec :
    unpack (knownCodec toVec m compressed) compressed = .ok m := by
  simp only [unpack, knownCodec, knownAt_self, bind, Except.bind]

theorem packedChunk_knownCodec (hash : ChunkHash) (other : Bytes → ChunkHash)
    (known : List Snapshot) :
    packedChunk (knowing (knownAt compressed hash other) known)
      (knownCodec toVec m compressed) m = (hash, compressed) := by
  simp only [packedChunk, packed_knownCodec, knowing, knownAt_self]

end Known

def emptyCodec : Codec :=
  knownCodec Agent.Json.manifestBytes emptyManifest emptyPacked

def emptyBlake3 : Bytes → ChunkHash :=
  knownAt emptyPacked emptyPackedHash fun _ => firstFrameHash

/-- The frame of the manifest that the server makes for a write. -/
def nthFrame (i : Nat) : Bytes :=
  let ext := knowing emptyBlake3 []
  encodeManifest ext.json (Server.buildManifest ext (nthWrite i).draws.request
    (commitManifest (nthWrite i).draws))

/-- The BLAKE3 hash of the frame of the second write. -/
def secondFrameHash : ChunkHash :=
  ⟨⟨[
    0x6e, 0xdb, 0x2e, 0x39, 0x54, 0x36, 0x03, 0x42,
    0xec, 0x9d, 0x1a, 0x9f, 0x58, 0xd2, 0xa8, 0xb2,
    0x51, 0x01, 0x5f, 0x7b, 0x41, 0xec, 0x33, 0x25,
    0x14, 0xa9, 0x80, 0x8c, 0x81, 0xcd, 0x77, 0x7a], rfl⟩⟩

/-- The BLAKE3 hash of the frame of the third write. -/
def thirdFrameHash : ChunkHash :=
  ⟨⟨[
    0xf0, 0x86, 0x6b, 0xde, 0x3e, 0x5a, 0x2b, 0xc4,
    0xbf, 0x8e, 0xee, 0xc9, 0xcc, 0x73, 0x8a, 0x16,
    0x15, 0x34, 0xd9, 0x96, 0x50, 0xb7, 0xeb, 0x67,
    0xc0, 0x63, 0x2e, 0x94, 0x30, 0xd8, 0xb3, 0x61], rfl⟩⟩

/-- BLAKE3 on the data of three writes. -/
def threeBlake3 : Bytes → ChunkHash :=
  knownAt emptyPacked emptyPackedHash (knownAt (nthFrame 1) secondFrameHash
    (knownAt (nthFrame 2) thirdFrameHash fun _ => firstFrameHash))

/-- All the writes upload the same chunk. -/
theorem map_packedChunk_nthWrites (known : List Snapshot) (n : Nat) :
    ((nthWrites n).map fun w =>
        packedChunk (knowing threeBlake3 known) emptyCodec w.manifest) =
      List.replicate n (emptyPackedHash, emptyPacked) := by
  have hchunk : packedChunk (knowing threeBlake3 known) emptyCodec emptyManifest =
      (emptyPackedHash, emptyPacked) :=
    packedChunk_knownCodec _ _ _ _ _ _
  rw [nthWrites, List.map_map]
  refine List.eq_replicate_iff.mpr ⟨by simp, ?_⟩
  intro c hc
  obtain ⟨i, -, rfl⟩ := List.mem_map.mp hc
  exact hchunk

theorem retrievable_nth (known : List Snapshot) {n i : Nat} (hn : n ≤ 100)
    (hi : i < n) :
    Retrievable (knowing threeBlake3 known) emptyCodec (Server.new [⟨1#128⟩])
      ⟨1#128⟩ (nthWrites n) i (nthWrite i) := by
  have hchunk : packedChunk (knowing threeBlake3 known) emptyCodec
      (nthWrite i).manifest = (emptyPackedHash, emptyPacked) :=
    packedChunk_knownCodec _ _ _ _ _ _
  rw [retrievable_new_iff, map_packedChunk_nthWrites, hchunk]
  refine ⟨Nat.lt_of_lt_of_le hi hn, emptyPackedHash, emptyPacked,
    Server.parseHash_toHex _, ?_, unpack_knownCodec _ _ _⟩
  have hpos : n ≠ 0 := by
    omega
  rw [ChunkStore.firstStored, if_neg (by decide)]
  simp [hpos]

/-- The first three manifests are read back. -/
theorem three_read_back :
    ReadBack (knowingAll threeBlake3 emptyCodec 3) emptyCodec operator
      (writeAll (knowingAll threeBlake3 emptyCodec 3) ⟨"/data"⟩ emptyCodec
        operator (Server.new [⟨1#128⟩]) (nthWrites 3)) (nthWrites 3) := by
  refine (readBack_iff (readsUuids_knowing _)
    (addressed_new ⟨"/data"⟩ [⟨1#128⟩] _) writesTo_knowingAll
    (fresh_nthWrites (by decide)) (readsSealed_nthWrites (by decide))
    (distinct_nthWrites (by decide))
    (written_nthWrites (by decide) (encodeAll_knownCodec _ _ _))).mpr ?_
  intro i w hi
  obtain ⟨hlt, hw⟩ := List.getElem?_eq_some_iff.mp hi
  have hlt' : i < 3 := by
    simpa [nthWrites] using hlt
  obtain rfl : nthWrite i = w := by
    simpa [nthWrites] using hw
  exact retrievable_nth _ (by decide) hlt'

end Example

end BaDouProvider
end Provider
end HyperBackup
