import HyperBackup.Provider.Faults

/-!
# Manifests that a server has

A version has a manifest in a repository if a snapshot of the version is
published there and its root leads to data that are read as the manifest.
A chunk is stored if it can be read.  Uploads and new repositories add no
versions; a commit adds one to its repository.
-/

namespace HyperBackup
namespace Provider

open Lib Lib.Program Badou BaDouProvider

section Definitions

variable (ext : Externals) (codec : Codec)

/-- The published snapshots of a repository, in order of their versions. -/
def snapshotsOf (s : ServerState) (r : RepositoryId) : List Snapshot :=
  Server.readSnapshots ext (Server.repoState s r).catalog
    (s.versionOps.listVersions r)

/-- The chunk can be read. -/
def ChunkStored (s : ServerState) (r : RepositoryId) (h : ChunkHash) : Prop :=
  ∃ data, ChunkStore.readChunk ext.blake3 (Server.repoState s r).store h = .ok data

/-- A snapshot leads to a manifest. -/
def LeadsTo (s : ServerState) (r : RepositoryId) (snap : Snapshot)
    (m : Agent.Manifest) : Prop :=
  ∃ h data, Convert.parseHash snap.fileTree.root = .ok h ∧
    ChunkStore.readChunk ext.blake3 (Server.repoState s r).store h = .ok data ∧
    unpack codec data = .ok m

/-- The first snapshot of the version leads to the manifest. -/
def HasManifest (s : ServerState) (r : RepositoryId) (v : VersionId)
    (m : Agent.Manifest) : Prop :=
  ∃ snap, ((snapshotsOf ext s r).find? fun snap => snap.versionId = v) = some snap ∧
    LeadsTo ext codec s r snap m

/-- The index has an entry for the chunk, but it cannot be read. -/
def Damaged (st : Store) (h : ChunkHash) : Prop :=
  ChunkStore.chunkExists st h ∧ ∀ data, ChunkStore.readChunk ext.blake3 st h ≠ .ok data

/-- The chunk can be read, or it will be once something is uploaded under its
hash, and it is. -/
def Available (st : Store) (uploaded : List ChunkHash) (h : ChunkHash) : Prop :=
  (∃ data, ChunkStore.readChunk ext.blake3 st h = .ok data) ∨
    ¬ ChunkStore.chunkExists st h ∧ h ∈ uploaded

end Definitions

/-- The server has the same versions with the same snapshots. -/
structure SameVersions (s s' : ServerState) : Prop where
  versionOps : s'.versionOps = s.versionOps
  catalogs : ∀ r, (Server.repoState s' r).catalog = (Server.repoState s r).catalog

section Versions

variable {ext : Externals} {layout : BadouDataLayout} {codec : Codec}
variable {provider : BaDouProvider} {s s' s'' : ServerState}
variable {r r' : RepositoryId}

theorem SameVersions.trans (h : SameVersions s s') (h' : SameVersions s' s'') :
    SameVersions s s'' where
  versionOps := h'.versionOps.trans h.versionOps
  catalogs := fun r => (h'.catalogs r).trans (h.catalogs r)

theorem OnlyChunks.sameVersions (h : OnlyChunks s s') : SameVersions s s' :=
  ⟨h.versionOps, h.catalogs⟩

theorem SameVersions.snapshotsOf (h : SameVersions s s') (r : RepositoryId) :
    snapshotsOf ext s' r = snapshotsOf ext s r := by
  unfold Provider.snapshotsOf
  rw [h.versionOps, h.catalogs]

theorem SameVersions.listed (h : SameVersions s s') (r : RepositoryId) :
    BaDouProvider.listed ext s' r = BaDouProvider.listed ext s r := by
  unfold BaDouProvider.listed
  rw [h.versionOps, h.catalogs]

/-- To ask for a repository adds no version. -/
theorem sameVersions_repositoryCreate {net : Net} {draws : CreateDraws}
    {request : Request RepositoryCreateRequest} :
    SameVersions net.server
      (net.after (Server.repositoryCreate draws request)).server := by
  unfold Net.after
  split
  · exact ⟨rfl, fun _ => rfl⟩
  · refine ⟨Server.versionOps_repositoryCreate, fun r => ?_⟩
    rw [Server.repoState_repositoryCreate]

/-- To ask for a repository changes no store. -/
theorem repoState_after_repositoryCreate {net : Net} {draws : CreateDraws}
    {request : Request RepositoryCreateRequest} (r : RepositoryId) :
    Server.repoState (net.after (Server.repositoryCreate draws request)).server r =
      Server.repoState net.server r := by
  unfold Net.after
  split
  · rfl
  · exact Server.repoState_repositoryCreate

/-- A version that no snapshot is of has no manifest. -/
theorem not_hasManifest {v : VersionId} {m : Agent.Manifest}
    (h : ∀ snap ∈ snapshotsOf ext s r, snap.versionId ≠ v) :
    ¬ HasManifest ext codec s r v m := by
  rintro ⟨snap, hfind, -⟩
  have hversion : snap.versionId = v := by
    simpa using List.find?_some hfind
  exact h snap (List.mem_of_find?_eq_some hfind) hversion

theorem snapshotsOf_eq :
    snapshotsOf ext s r = (s.versionOps.snapshotIds r).filterMap fun id =>
      (SnapshotStore.readSnapshot ext.json (Server.repoState s r).catalog
        id).toOption := by
  rw [snapshotsOf, Server.readSnapshots_eq]
  rfl

/-- A manifest that is written appends its snapshot to the listing of its
repository. -/
theorem listing_of_run {w : ManifestWrite} (hwrites : WritesTo ext provider s r)
    (hrun : (writeManifest reliable ext layout codec provider w.draws w.versionId
      w.manifest).run s = .ok () s')
    (hversion : w.committedVersion ∉ s.versionOps.versionIds r') :
    s'.versionOps.snapshotIds r' = s.versionOps.snapshotIds r' ++
        (if r' = r then [w.committedSnapshot] else []) ∧
      ∀ id, (Server.repoState s' r').catalog.snapshots.lookup
          (SnapshotStore.snapshotName id) =
        if r' = r ∧ id = w.committedSnapshot then
          some (ext.json.snapshotToVec (sealedFor ext codec provider r w))
        else (Server.repoState s r').catalog.snapshots.lookup
          (SnapshotStore.snapshotName id) := by
  obtain ⟨response, hparse, hanswer, rfl⟩ := commit_of_run hwrites hrun
  have hchunk := @onlyChunks_withChunk layout s r (packedChunk ext codec w.manifest).1
    (packed codec w.manifest) hwrites.known
  constructor
  · rw [Server.snapshotIds_of_answer hparse hanswer
      (by rw [hchunk.versionOps]; exact hversion), hchunk.versionOps]
    rfl
  · intro id
    rw [Server.lookup_snapshot_of_answer hparse hanswer, hchunk.catalogs]
    rfl

/-- A commit publishes its snapshot and no other. -/
theorem snapshotsOf_of_run {w : ManifestWrite}
    (hwrites : WritesTo ext provider s r)
    (hrun : (writeManifest reliable ext layout codec provider w.draws w.versionId
      w.manifest).run s = .ok () s')
    (hversion : w.committedVersion ∉ s.versionOps.versionIds r')
    (hsnapshot : w.committedSnapshot ∉ s.versionOps.snapshotIds r')
    (hjson : ext.json.snapshotFromSlice
      (ext.json.snapshotToVec (sealedFor ext codec provider r w)) =
        .ok (sealedFor ext codec provider r w)) :
    snapshotsOf ext s' r' = snapshotsOf ext s r' ++
      if r' = r then [sealedFor ext codec provider r w] else [] := by
  obtain ⟨hids, hlookup⟩ :=
    @listing_of_run ext layout codec provider s s' r r' w hwrites hrun hversion
  have hread : ∀ id, ¬ (r' = r ∧ id = w.committedSnapshot) →
      SnapshotStore.readSnapshot ext.json (Server.repoState s' r').catalog id =
        SnapshotStore.readSnapshot ext.json (Server.repoState s r').catalog id := by
    intro id hid
    unfold SnapshotStore.readSnapshot
    rw [hlookup, if_neg hid]
  have hold : (s.versionOps.snapshotIds r').filterMap (fun id =>
      (SnapshotStore.readSnapshot ext.json (Server.repoState s' r').catalog
        id).toOption) =
      (s.versionOps.snapshotIds r').filterMap fun id =>
        (SnapshotStore.readSnapshot ext.json (Server.repoState s r').catalog
          id).toOption := by
    refine List.filterMap_congr fun id hid => ?_
    rw [hread id]
    rintro ⟨-, rfl⟩
    exact hsnapshot hid
  rw [snapshotsOf_eq, snapshotsOf_eq, hids, List.filterMap_append, hold]
  congr 1
  by_cases hr : r' = r
  · have hnew : SnapshotStore.readSnapshot ext.json (Server.repoState s' r').catalog
        w.committedSnapshot = .ok (sealedFor ext codec provider r w) :=
      SnapshotStore.readSnapshot_of_lookup
        ((hlookup _).trans (if_pos ⟨hr, rfl⟩)) hjson
    rw [if_pos hr, if_pos hr, List.filterMap_cons, hnew]
    rfl
  · rw [if_neg hr, if_neg hr]
    rfl

end Versions

section Reading

variable {ext : Externals} {codec : Codec} {provider : BaDouProvider}
variable {s s' : ServerState} {r : RepositoryId} {v : VersionId}
variable {m : Agent.Manifest}

/-- A listing is answered to who may read. -/
theorem readsFrom_of_run_listRequest {response : SnapshotListResponse}
    (hrun : (Server.snapshotList ext provider.listRequest).run s =
      .ok response s') : ∃ r, ReadsFrom ext provider s r := by
  unfold Server.snapshotList at hrun
  obtain ⟨u, s₁, h₁, hrun₁⟩ := run_bind_eq_ok.mp hrun
  obtain ⟨hauth, rfl⟩ := run_ofResult_eq_ok.mp h₁
  obtain ⟨r, s₂, h₂, hrun₂⟩ := run_bind_eq_ok.mp hrun₁
  obtain ⟨hparse, rfl⟩ := run_ofResult_eq_ok.mp h₂
  obtain ⟨t, s₃, h₃, hrun₃⟩ := run_bind_eq_ok.mp hrun₂
  obtain ⟨-, rfl⟩ := EStateM.Result.ok.inj h₃
  obtain ⟨repo, s₄, h₄, -⟩ := run_bind_eq_ok.mp hrun₃
  exact ⟨r, hauth, hparse, (Server.of_run_openRepo h₄).1⟩

/-- The provider sees a beginning of the published snapshots. -/
theorem listed_prefix : listed ext s r <+: snapshotsOf ext s r :=
  (List.take_prefix 100 (s.versionOps.listVersions r)).filterMap _

/-- A manifest is read if the provider may read and sees a snapshot of the
version. -/
theorem outcome_readManifest_iff_hasManifest :
    outcome (readManifest reliable ext codec provider v) s = .ok m ↔
      ∃ r, ReadsFrom ext provider s r ∧ HasManifest ext codec s r v m ∧
        ∃ snap ∈ listed ext s r, snap.versionId = v := by
  constructor
  · intro houtcome
    obtain ⟨response, s₁, hlist, -⟩ :=
      run_bind_eq_ok.mp (run_eq_ok_iff.mpr ⟨houtcome, rfl⟩)
    obtain ⟨r, hreads⟩ :=
      readsFrom_of_run_listRequest (run_reliable_eq_ok.mp hlist)
    obtain ⟨snap, hfind, hleads⟩ :=
      (outcome_readManifest_eq_ok_iff hreads).mp houtcome
    refine ⟨r, hreads, ⟨snap, listed_prefix.find?_eq_some hfind, hleads⟩, snap,
      List.mem_of_find?_eq_some hfind, ?_⟩
    simpa using List.find?_some hfind
  · rintro ⟨r, hreads, ⟨snap, hfind, hleads⟩, snap', hmem, hversion⟩
    refine (outcome_readManifest_eq_ok_iff hreads).mpr ⟨snap, ?_, hleads⟩
    cases hfirst : (listed ext s r).find? fun snap => snap.versionId = v with
    | none =>
        simpa [hversion] using List.find?_eq_none.mp hfirst snap' hmem
    | some first =>
        rw [← hfind, listed_prefix.find?_eq_some hfirst]

end Reading

section Chunks

variable {ext : Externals} {layout : BadouDataLayout} {r : RepositoryId}
variable {st : Store} {chunks : List (ChunkHash × Bytes)} {h : ChunkHash}

/-- What can be read after some uploads was readable before, or was uploaded. -/
theorem exists_readChunk_writeChunks_iff (haddressed : st.Addressed layout r)
    (hhashed : ∀ c ∈ chunks, ext.blake3 c.2 = c.1) :
    (∃ data, ChunkStore.readChunk ext.blake3
        (stateAfter (ChunkStore.writeChunks layout r chunks) st) h = .ok data) ↔
      Available ext st (chunks.map Prod.fst) h := by
  simp only [ChunkStore.readChunk_writeChunks_iff haddressed hhashed,
    ChunkStore.firstStored]
  by_cases hknown : ChunkStore.chunkExists st h = true
  · simp only [hknown, if_true, Available, not_true_eq_false, false_and, or_false]
    cases ChunkStore.readChunk ext.blake3 st h with
    | ok data =>
        simp [Except.toOption]
    | error e =>
        simp [Except.toOption]
  · have hunread : ¬ ∃ data, ChunkStore.readChunk ext.blake3 st h = .ok data := by
      rintro ⟨data, hread⟩
      obtain ⟨e, he, -⟩ := ChunkStore.readChunk_eq_ok_iff.mp hread
      exact hknown (by simp [ChunkStore.chunkExists, he])
    have hfound : (∃ data, (chunks.find? fun c => c.1 = h).map Prod.snd =
        some data) ↔ h ∈ chunks.map Prod.fst := by
      rw [← Option.isSome_iff_exists, Option.isSome_map, List.find?_isSome]
      simp
    simp only [Available, hunread, hknown, false_or, not_false_eq_true, true_and,
      Bool.false_eq_true, if_false]
    exact hfound

/-- An uploaded chunk is there unless the server had a damaged one in its
place. -/
theorem available_iff_of_mem {uploaded : List ChunkHash} (huploaded : h ∈ uploaded) :
    Available ext st uploaded h ↔ ¬ Damaged ext st h := by
  unfold Available Damaged
  constructor
  · rintro (⟨data, hread⟩ | ⟨hnew, -⟩) ⟨hknown, hunread⟩
    · exact hunread data hread
    · exact hnew hknown
  · intro hsound
    by_cases hknown : ChunkStore.chunkExists st h = true
    · left
      by_contra hunread
      exact hsound ⟨hknown, fun data hread => hunread ⟨data, hread⟩⟩
    · exact Or.inr ⟨hknown, huploaded⟩

/-- Data that are new to the server are read, if nothing else is uploaded under
their hash. -/
theorem readChunk_of_new (haddressed : st.Addressed layout r)
    (hhashed : ∀ c ∈ chunks, ext.blake3 c.2 = c.1) {data : Bytes}
    (hmem : (h, data) ∈ chunks) (hnew : ¬ ChunkStore.chunkExists st h)
    (halone : ∀ c ∈ chunks, c.1 = h → c.2 = data) :
    ChunkStore.readChunk ext.blake3
      (stateAfter (ChunkStore.writeChunks layout r chunks) st) h = .ok data := by
  rw [ChunkStore.readChunk_writeChunks_iff haddressed hhashed,
    ChunkStore.firstStored, if_neg hnew]
  cases hfind : chunks.find? fun c => c.1 = h with
  | none =>
      simpa using List.find?_eq_none.mp hfind _ hmem
  | some c =>
      have hhash : c.1 = h := by
        simpa using List.find?_some hfind
      rw [Option.map_some, halone c (List.mem_of_find?_eq_some hfind) hhash]

end Chunks

section Written

variable {ext : Externals} {layout : BadouDataLayout} {codec : Codec}
variable {provider : BaDouProvider} {s₀ s : ServerState} {r : RepositoryId}
variable {w : ManifestWrite} {uploads : List (ChunkHash × Bytes)}

/-- The identifiers that are drawn for a manifest are new to the server. -/
structure NewVersion (ext : Externals) (s₀ : ServerState) (w : ManifestWrite) :
    Prop where
  version : ∀ r, ∀ snap ∈ snapshotsOf ext s₀ r, snap.versionId ≠ w.versionId
  committed : ∀ r, w.committedVersion ∉ s₀.versionOps.versionIds r
  snapshot : ∀ r, w.committedSnapshot ∉ s₀.versionOps.snapshotIds r
  staging : ∀ r, (Server.repoState s₀ r).catalog.staging.lookup
    w.committedVersion.uuid = none

/-- A manifest and its snapshot are read as they are written, and the data of the
manifest are new to the repository. -/
structure NewManifest (ext : Externals) (codec : Codec)
    (provider : BaDouProvider) (r : RepositoryId) (s₀ : ServerState)
    (w : ManifestWrite) : Prop where
  encodes : ∃ data, codec.encodeAll (codec.manifestToVec w.manifest) = .ok data
  unpacks : unpack codec (packed codec w.manifest) = .ok w.manifest
  sealed : ext.json.snapshotFromSlice
    (ext.json.snapshotToVec (sealedFor ext codec provider r w)) =
      .ok (sealedFor ext codec provider r w)
  unknown : ¬ ChunkStore.chunkExists (Server.repoState s₀ r).store
    (packedChunk ext codec w.manifest).1

/-- Such a manifest is written. -/
theorem run_writeManifest_of_new (layout : BadouDataLayout)
    (hwrites : WritesTo ext provider s r)
    (hsame : SameVersions s₀ s) (hversion : NewVersion ext s₀ w)
    (hmanifest : NewManifest ext codec provider r s₀ w) :
    (writeManifest reliable ext layout codec provider w.draws w.versionId
      w.manifest).run s = .ok () (writeOne ext layout codec provider s w) := by
  obtain ⟨data, hencode⟩ := hmanifest.encodes
  refine run_eq_ok_iff.mpr ⟨?_, rfl⟩
  refine outcome_writeManifest hwrites hencode ?_ hmanifest.sealed
  rw [hsame.catalogs]
  exact hversion.staging r

/-- A manifest that is written keeps every chunk in its own file. -/
theorem addressed_of_run {s' : ServerState}
    (hrun : (writeManifest reliable ext layout codec provider w.draws w.versionId
      w.manifest).run s = .ok () s')
    (h : ∀ r', (Server.repoState s r').store.Addressed layout r') (r' : RepositoryId) :
    (Server.repoState s' r').store.Addressed layout r' := by
  obtain ⟨-, r, response, hwrites, -, rfl⟩ := run_writeManifest_eq_ok_iff.mp hrun
  have hparse := @parseCommit_commitRequest ext provider r w.draws w.versionId
    (packedChunk ext codec w.manifest).1.toHex hwrites.parsed
  rw [Server.store_snapshotCommit_of_nil hparse rfl]
  exact addressed_withChunk h r'

/-- What is new to a server is new to all with the same versions. -/
theorem NewVersion.of_sameVersions (h : NewVersion ext s₀ w) (hsame : SameVersions s₀ s) :
    NewVersion ext s w where
  version := by
    intro r
    rw [hsame.snapshotsOf]
    exact h.version r
  committed := by
    rw [hsame.versionOps]
    exact h.committed
  snapshot := by
    rw [hsame.versionOps]
    exact h.snapshot
  staging := by
    intro r
    rw [hsame.catalogs]
    exact h.staging r

/-- A manifest that is written takes its version identifier in its repository. -/
theorem versionIds_of_run {s' : ServerState} (hwrites : WritesTo ext provider s r)
    (hrun : (writeManifest reliable ext layout codec provider w.draws w.versionId
      w.manifest).run s = .ok () s') (r' : RepositoryId) :
    s'.versionOps.versionIds r' = s.versionOps.versionIds r' ++
      (if r' = r then [w.committedVersion] else []) := by
  obtain ⟨response, hparse, hanswer, rfl⟩ := commit_of_run hwrites hrun
  rw [Server.versionIds_of_answer hparse hanswer]
  rfl

/-- It leaves the other repositories their staging areas. -/
theorem staging_of_run_ne {s' : ServerState} (hwrites : WritesTo ext provider s r)
    (hrun : (writeManifest reliable ext layout codec provider w.draws w.versionId
      w.manifest).run s = .ok () s') {r' : RepositoryId} (hr : r' ≠ r) :
    (Server.repoState s' r').catalog.staging =
      (Server.repoState s r').catalog.staging := by
  obtain ⟨response, hparse, hanswer, rfl⟩ := commit_of_run hwrites hrun
  have hchunk := @onlyChunks_withChunk layout s r
    (packedChunk ext codec w.manifest).1 (packed codec w.manifest) hwrites.known
  rw [Server.repoState_of_answer hparse hanswer hr, hchunk.catalogs]

/-- What is new to a server stays so when other identifiers are taken. -/
theorem NewVersion.of_run {s' : ServerState} {w' : ManifestWrite}
    (h : NewVersion ext s w') (huuid : Server.ReadsUuids ext)
    (hwrites : WritesTo ext provider s r)
    (hrun : (writeManifest reliable ext layout codec provider w.draws w.versionId
      w.manifest).run s = .ok () s')
    (hversion : NewVersion ext s w)
    (hmanifest : NewManifest ext codec provider r s₀ w)
    (hdiffers : w'.versionId ≠ w.versionId)
    (hcommitted : w'.committedVersion ≠ w.committedVersion)
    (hsnapshot : w'.committedSnapshot ≠ w.committedSnapshot) :
    NewVersion ext s' w' where
  version := by
    intro r' snap hsnap
    rw [snapshotsOf_of_run hwrites hrun (hversion.committed r') (hversion.snapshot r')
      hmanifest.sealed] at hsnap
    rcases List.mem_append.mp hsnap with hold | hnew
    · exact h.version r' snap hold
    · split at hnew
      · rw [List.mem_singleton.mp hnew, versionId_sealedFor huuid]
        exact hdiffers.symm
      · cases hnew
  committed := by
    intro r' hmem
    rw [versionIds_of_run hwrites hrun] at hmem
    rcases List.mem_append.mp hmem with hold | hnew
    · exact h.committed r' hold
    · split at hnew
      · exact hcommitted (List.mem_singleton.mp hnew)
      · cases hnew
  snapshot := by
    intro r' hmem
    rw [(listing_of_run hwrites hrun (hversion.committed r')).1] at hmem
    rcases List.mem_append.mp hmem with hold | hnew
    · exact h.snapshot r' hold
    · split at hnew
      · exact hsnapshot (List.mem_singleton.mp hnew)
      · cases hnew
  staging := by
    intro r'
    by_cases hr : r' = r
    · subst hr
      have hwrote := wrote_of_run hwrites hrun
      rw [hwrote.staging, h.staging, ite_self]
    · rw [staging_of_run_ne hwrites hrun hr]
      exact h.staging r'

/-- The store then has the uploads and the manifest. -/
theorem store_writeOne_of_new (hwrites : WritesTo ext provider s r)
    (hsame : SameVersions s₀ s) (hversion : NewVersion ext s₀ w)
    (hmanifest : NewManifest ext codec provider r s₀ w)
    (hstore : (Server.repoState s r).store =
      stateAfter (ChunkStore.writeChunks layout r uploads)
        (Server.repoState s₀ r).store) :
    (Server.repoState (writeOne ext layout codec provider s w) r).store =
      stateAfter (ChunkStore.writeChunks layout r
        (uploads ++ [packedChunk ext codec w.manifest]))
          (Server.repoState s₀ r).store := by
  have hwrote := wrote_of_run hwrites
    (run_writeManifest_of_new layout hwrites hsame hversion hmanifest)
  rw [hwrote.store, hstore, ChunkStore.stateAfter_writeChunks,
    ChunkStore.stateAfter_writeChunks, List.foldl_append]
  rfl

/-- The data of the manifest are read under their hash. -/
theorem readChunk_manifest_writeOne
    (haddressed : (Server.repoState s₀ r).store.Addressed layout r)
    (hwrites : WritesTo ext provider s r) (hsame : SameVersions s₀ s)
    (hversion : NewVersion ext s₀ w)
    (hmanifest : NewManifest ext codec provider r s₀ w)
    (hstore : (Server.repoState s r).store =
      stateAfter (ChunkStore.writeChunks layout r uploads)
        (Server.repoState s₀ r).store)
    (hhashed : ∀ c ∈ uploads, ext.blake3 c.2 = c.1)
    (halone : ∀ c ∈ uploads, c.1 ≠ (packedChunk ext codec w.manifest).1) :
    ChunkStore.readChunk ext.blake3 (Server.repoState
      (writeOne ext layout codec provider s w) r).store
        (packedChunk ext codec w.manifest).1 = .ok (packed codec w.manifest) := by
  rw [store_writeOne_of_new hwrites hsame hversion hmanifest hstore]
  refine readChunk_of_new haddressed ?_ (List.mem_append_right _
    (List.mem_singleton_self _)) hmanifest.unknown ?_
  · intro c hc
    rcases List.mem_append.mp hc with hold | hlast
    · exact hhashed c hold
    · rw [List.mem_singleton.mp hlast]
      rfl
  · intro c hc hhash
    rcases List.mem_append.mp hc with hold | hlast
    · exact absurd hhash (halone c hold)
    · rw [List.mem_singleton.mp hlast]
      rfl

/-- So the version has that manifest, in that repository only. -/
theorem hasManifest_writeOne_iff (huuid : Server.ReadsUuids ext)
    (haddressed : (Server.repoState s₀ r).store.Addressed layout r)
    (hwrites : WritesTo ext provider s r) (hsame : SameVersions s₀ s)
    (hversion : NewVersion ext s₀ w)
    (hmanifest : NewManifest ext codec provider r s₀ w)
    (hstore : (Server.repoState s r).store =
      stateAfter (ChunkStore.writeChunks layout r uploads)
        (Server.repoState s₀ r).store)
    (hhashed : ∀ c ∈ uploads, ext.blake3 c.2 = c.1)
    (halone : ∀ c ∈ uploads, c.1 ≠ (packedChunk ext codec w.manifest).1)
    {r' : RepositoryId} {m : Agent.Manifest} :
    HasManifest ext codec (writeOne ext layout codec provider s w) r' w.versionId m ↔
      r' = r ∧ m = w.manifest := by
  have hnew : ∀ snap ∈ snapshotsOf ext s r', ¬ (snap.versionId = w.versionId) := by
    rw [hsame.snapshotsOf]
    exact hversion.version r'
  have hsnapshots := @snapshotsOf_of_run ext layout codec provider s
    (writeOne ext layout codec provider s w) r r' w hwrites
    (run_writeManifest_of_new layout hwrites hsame hversion hmanifest)
    (by rw [hsame.versionOps]; exact hversion.committed r')
    (by rw [hsame.versionOps]; exact hversion.snapshot r') hmanifest.sealed
  have hroot := readChunk_manifest_writeOne haddressed hwrites hsame hversion
    hmanifest hstore hhashed halone
  have hfind : ((snapshotsOf ext s r').find? fun snap =>
      snap.versionId = w.versionId) = none := by
    rw [List.find?_eq_none]
    simpa using hnew
  unfold HasManifest
  rw [hsnapshots, List.find?_append, hfind, Option.none_or]
  by_cases hr : r' = r
  · subst hr
    have hsealed : (sealedFor ext codec provider r' w).versionId = w.versionId :=
      versionId_sealedFor huuid
    simp only [if_true, List.find?_singleton, hsealed, decide_true,
      Option.some.injEq, exists_eq_left', true_and]
    constructor
    · rintro ⟨h, data, hparse, hread, hunpack⟩
      rw [root_sealedFor, Server.parseHash_toHex] at hparse
      obtain rfl := Except.ok.inj hparse
      obtain rfl := Except.ok.inj (hroot.symm.trans hread)
      exact Except.ok.inj (hunpack.symm.trans hmanifest.unpacks)
    · rintro rfl
      exact ⟨_, _, Server.parseHash_toHex _, hroot, hmanifest.unpacks⟩
  · simp [hr]

end Written

end Provider
end HyperBackup
