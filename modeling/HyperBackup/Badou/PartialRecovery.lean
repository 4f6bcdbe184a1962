import HyperBackup.Badou.RecoveredFiles
import HyperBackup.Badou.VersionTable

/-!
# Recoveries that leave files out

A recovery keeps the files that it can read apart from those that it cannot.
The server sends the files of the first kind, one chunk each, and then ends the
stream.  A client that sees the end has all files exactly if each selected file
of the snapshot could be read.
-/

namespace HyperBackup
namespace Badou
namespace Server

open Lib Lib.Program

section Streams

variable (blake3 : Bytes → ChunkHash)

/-- The data consist of pieces with the hashes that the entry names. -/
def FullData (entry : FileEntry) (data : Bytes) : Prop :=
  ∃ pieces : List Bytes, pieces.map blake3 = entry.chunkHashes ∧ data = pieces.flatten

structure Delivers (entry : FileEntry) (chunk : RecoveryChunk) : Prop where
  filePath : chunk.filePath = entry.path
  offset : chunk.offset = 0
  data : FullData blake3 entry chunk.data

/-- Each entry has a chunk of its own in the stream. -/
def DeliversAll (entries : List FileEntry) (chunks : List RecoveryChunk) : Prop :=
  ∃ delivered, List.Subperm delivered chunks ∧
    List.Forall₂ (Delivers blake3) entries delivered

end Streams

section Opening

variable (ext : Externals) (s : ServerState) (request : Request RecoveryOpenRequest)

/-- The request leads to a sealed snapshot over a store. -/
def Opens (st : Store) (snapshot : Snapshot) : Prop :=
  request.auth = .ok () ∧
    ∃ r v version, Convert.parseRepoId ext request.inner.repoId = .ok r ∧
      Convert.parseVersionId ext request.inner.versionId = .ok v ∧
      s.versionOps.versions.lookup v = some version ∧
      (s.repos.lookup r).isSome ∧
      SnapshotStore.readSnapshot ext.json (repoState s r).catalog version.snapshotId =
        .ok snapshot ∧
      snapshot.status = .sealed ∧ st = (repoState s r).store

/-- The entries of a snapshot that the request asks for. -/
def requestedEntries (snapshot : Snapshot) : List FileEntry :=
  RecoveryEngine.selectedEntries (request.inner.filePath.map fun path => [path])
    snapshot.fileTree.entries

/-- A stream that ends without an error is complete. -/
def CompleteStream : Prop :=
  ∀ chunks, outcome (recoveryOpen ext request) s = .ok chunks →
    ∃ st snapshot, Opens ext s request st snapshot ∧
      DeliversAll ext.blake3 (requestedEntries request snapshot) chunks

/-- If the request leads to a snapshot, the chunks of its requested files are in
the index with files that have their hashes. -/
def Undamaged : Prop :=
  ∀ st snapshot, Opens ext s request st snapshot →
    ∀ entry ∈ requestedEntries request snapshot,
      RecoveryEngine.readableFile ext.blake3 st entry = true

end Opening

section Specs

variable {ext : Externals} {s : ServerState} {request : Request RecoveryOpenRequest}
variable {st : Store} {snapshot : Snapshot}

/-- The chunk that is sent for an entry. -/
def entryChunk (st : Store) (entry : FileEntry) : RecoveryChunk :=
  Convert.makeRecoveryChunk ((entry.chunkHashes.map ChunkHash.toHex).head?.getD "")
    (RecoveryEngine.fileData st entry) entry.path 0

theorem opens_unique {st' : Store} {snapshot' : Snapshot}
    (h : Opens ext s request st snapshot) (h' : Opens ext s request st' snapshot') :
    st = st' ∧ snapshot = snapshot' := by
  obtain ⟨-, r, v, version, hr, hv, hversion, -, hread, -, rfl⟩ := h
  obtain ⟨-, r', v', version', hr', hv', hversion', -, hread', -, rfl⟩ := h'
  obtain rfl := Except.ok.inj (hr.symm.trans hr')
  obtain rfl := Except.ok.inj (hv.symm.trans hv')
  obtain rfl := Option.some.inj (hversion.symm.trans hversion')
  exact ⟨rfl, Except.ok.inj (hread.symm.trans hread')⟩

/-- A request that leads to a snapshot is answered with its readable files. -/
theorem outcome_recoveryOpen (h : Opens ext s request st snapshot) :
    outcome (recoveryOpen ext request) s =
      .ok (((requestedEntries request snapshot).filter
        (RecoveryEngine.readableFile ext.blake3 st)).map (entryChunk st)) := by
  obtain ⟨hauth, r, v, version, hr, hv, hversion, hrepo, hread, hsealed, rfl⟩ := h
  obtain ⟨result, hresult, hsplits⟩ := @RecoveryEngine.recover_of_sealed ext.blake3 _ _ _
    (repoState s r).store
    ⟨version.snapshotId, request.inner.filePath.map fun path => [path]⟩ hread hsealed
  have hout := VersionTable.outcome_recoveryResult hauth hr hv hversion hrepo hresult
  have hrun := run_eq_ok_iff.mpr ⟨hout, rfl⟩
  have hfiles : (result.recoveredFiles.map fun file =>
      Convert.makeRecoveryChunk (file.chunkHashes.head?.getD "") file.data file.path 0) =
        ((requestedEntries request snapshot).filter (RecoveryEngine.readableFile
          ext.blake3 (repoState s r).store)).map (entryChunk (repoState s r).store) := by
    rw [hsplits.recovered, List.map_map]
    rfl
  unfold recoveryOpen
  rw [outcome_bind_of_run hrun, ← hfiles]
  rfl

/-- Whatever is answered comes from a sealed snapshot. -/
theorem opens_of_outcome {chunks : List RecoveryChunk}
    (h : outcome (recoveryOpen ext request) s = .ok chunks) :
    ∃ st snapshot, Opens ext s request st snapshot := by
  obtain ⟨result, hresult, -⟩ := VersionTable.exists_recover_of_chunks h
  obtain ⟨hauth, r, v, version, hr, hv, hversion, hrepo, hrecover⟩ :=
    VersionTable.recover_of_open hresult
  obtain ⟨snapshot, hread, hsealed⟩ := RecoveryEngine.sealed_of_recover hrecover
  exact ⟨_, snapshot, hauth, r, v, version, hr, hv, hversion, hrepo, hread, hsealed, rfl⟩

theorem blake3_of_readable {blake3 : Bytes → ChunkHash} {h : ChunkHash}
    (hread : RecoveryEngine.readableChunk blake3 st h = true) :
    blake3 ((RecoveryEngine.chunkFile st h).getD []) = h := by
  unfold RecoveryEngine.readableChunk at hread
  cases hfile : RecoveryEngine.chunkFile st h with
  | none =>
      rw [hfile] at hread
      cases hread
  | some data =>
      rw [hfile] at hread
      exact of_decide_eq_true hread

/-- The data of a readable file are its full data. -/
theorem fullData_of_readable {blake3 : Bytes → ChunkHash} {entry : FileEntry}
    (hread : RecoveryEngine.readableFile blake3 st entry = true) :
    FullData blake3 entry (RecoveryEngine.fileData st entry) := by
  refine ⟨entry.chunkHashes.map fun h => (RecoveryEngine.chunkFile st h).getD [], ?_, ?_⟩
  · rw [List.map_map]
    refine (List.map_congr_left fun h hmem => ?_).trans (List.map_id _)
    exact blake3_of_readable (List.all_eq_true.mp hread h hmem)
  · rw [RecoveryEngine.fileData, List.flatMap_def]

theorem delivers_entryChunk {blake3 : Bytes → ChunkHash} {entry : FileEntry}
    (hread : RecoveryEngine.readableFile blake3 st entry = true) :
    Delivers blake3 entry (entryChunk st entry) where
  filePath := rfl
  offset := rfl
  data := fullData_of_readable hread

/-- The readable files are all that are delivered exactly if there are no others. -/
theorem deliversAll_iff {blake3 : Bytes → ChunkHash} (entries : List FileEntry) :
    DeliversAll blake3 entries
        ((entries.filter (RecoveryEngine.readableFile blake3 st)).map (entryChunk st)) ↔
      ∀ entry ∈ entries, RecoveryEngine.readableFile blake3 st entry = true := by
  constructor
  · rintro ⟨delivered, hsub, hdelivers⟩
    have hlength := hsub.length_le
    rw [← hdelivers.length_eq, List.length_map] at hlength
    exact List.length_filter_eq_length_iff.mp (le_antisymm (List.length_filter_le _ _) hlength)
  · intro hall
    rw [List.filter_eq_self.mpr hall]
    refine ⟨_, List.Subperm.refl _, ?_⟩
    rw [List.forall₂_map_right_iff, List.forall₂_same]
    intro entry hentry
    exact delivers_entryChunk (hall entry hentry)

end Specs

/-- A stream that ends without an error has all requested files exactly if none of
these has a damaged chunk. -/
theorem completeStream_iff (ext : Externals) (s : ServerState)
    (request : Request RecoveryOpenRequest) :
    CompleteStream ext s request ↔ Undamaged ext s request := by
  constructor
  · intro hcomplete st snapshot hopens
    obtain ⟨st', snapshot', hopens', hall⟩ := hcomplete _ (outcome_recoveryOpen hopens)
    obtain ⟨rfl, rfl⟩ := opens_unique hopens hopens'
    exact (deliversAll_iff _).mp hall
  · intro hundamaged chunks hchunks
    obtain ⟨st, snapshot, hopens⟩ := opens_of_outcome hchunks
    obtain rfl := Except.ok.inj ((outcome_recoveryOpen hopens).symm.trans hchunks)
    exact ⟨st, snapshot, hopens, (deliversAll_iff _).mpr (hundamaged st snapshot hopens)⟩

section Example

open RecoveryEngine

/-- The chunk of `abc` is known by its hash. -/
def abcExternals : Externals where
  blake3 := fun data => if data = [0x61, 0x62, 0x63] then abcHash else .ofEmpty
  parseUuid := uuidOfText
  json := damagedJson

/-- A repository with a version whose second file is damaged. -/
def damagedState : ServerState where
  repos := (∅ : HashMap RepositoryId OpenRepo).insert ⟨1#128⟩
    { store := abcStore, catalog := damagedCatalog, index := .inMemory, journal := [] }
  versionOps :=
    { VersionOps.new with
      versions := (∅ : HashMap VersionId Version).insert ⟨4#128⟩
        { versionId := ⟨4#128⟩
          repoId := ⟨1#128⟩
          snapshotId := damagedSnapshot.snapshotId
          parentVersionId := none
          sequence := 1
          status := .sealed
          createdAt := 0
          sealedAt := some 0
          immutableUntil := none } }

theorem opens_damaged :
    Opens abcExternals damagedState
      (VersionTable.openOf (uuidText 1#128) (uuidText 4#128)) abcStore damagedSnapshot := by
  have hparse : ∀ u, uuidOfText (uuidText u) = .ok u := uuidOfText_uuidText
  have hjson : damagedJson.snapshotFromSlice
      (Hex.utf8 (Json.snapshot damagedSnapshot)) = .ok damagedSnapshot := by
    rw [damagedJson, Json.withReaders_snapshotFromSlice, if_pos rfl]
  have hrepos : damagedState.repos.lookup ⟨1#128⟩ = some
      { store := abcStore, catalog := damagedCatalog, index := .inMemory, journal := [] } :=
    AList.lookup_insert _
  have hstate : repoState damagedState ⟨1#128⟩ =
      { store := abcStore, catalog := damagedCatalog, index := .inMemory, journal := [] } := by
    rw [repoState, hrepos, Option.getD_some]
  refine ⟨rfl, ⟨1#128⟩, ⟨4#128⟩, _, ?_, ?_, AList.lookup_insert _, ?_, ?_, rfl, ?_⟩
  · simp only [Convert.parseRepoId, abcExternals, VersionTable.openOf, hparse]
  · simp only [Convert.parseVersionId, abcExternals, VersionTable.openOf, hparse]
  · rw [hrepos]
    rfl
  · rw [hstate]
    exact SnapshotStore.readSnapshot_of_lookup (AList.lookup_insert _) hjson
  · rw [hstate]

/-- The stream ends without the file whose chunk is not stored. -/
theorem incompleteStream_damaged :
    ¬ CompleteStream abcExternals damagedState
      (VersionTable.openOf (uuidText 1#128) (uuidText 4#128)) := by
  intro hcomplete
  obtain ⟨st, snapshot, hopens, hall⟩ := hcomplete _ (outcome_recoveryOpen opens_damaged)
  obtain ⟨rfl, rfl⟩ := opens_unique opens_damaged hopens
  have hentry := (deliversAll_iff _).mp hall
    { path := "/home/b", size := 6, isDirectory := false, chunkHashes := [abcHash, .ofEmpty] }
    (by simp [requestedEntries, selectedEntries, VersionTable.openOf, damagedSnapshot])
  have hchunk : readableChunk abcExternals.blake3 abcStore .ofEmpty = true :=
    List.all_eq_true.mp hentry .ofEmpty (by simp)
  have hnone : chunkFile abcStore .ofEmpty = none := by
    have hne : ChunkHash.ofEmpty.toHex ≠ abcHash.toHex := fun heq =>
      absurd (ChunkHash.toHex_injective heq) (by decide)
    rw [chunkFile, abcStore, BadouIndex.lookup_register, if_neg hne]
    rfl
  rw [readableChunk, hnone] at hchunk
  cases hchunk

end Example

end Server
end Badou
end HyperBackup
