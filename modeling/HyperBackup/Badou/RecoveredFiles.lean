import HyperBackup.Badou.Recovery

/-!
# What a recovery returns

The file entries of a sealed snapshot that the filter selects are split in two,
in their order: those whose chunks can all be read are recovered with the
contents of their chunks one after the other, and the others are reported.  The
recovered data lie in memory together, so the number of bytes does not wrap.
-/

namespace HyperBackup
namespace Badou
namespace RecoveryEngine

open Lib

/-- The contents of the file that the index names for a chunk. -/
def chunkFile (st : Store) (h : ChunkHash) : Option Bytes :=
  (st.index.lookup h.toHex).bind fun e => st.files.lookup e.path

/-- The chunk is in the index with a file that has its hash. -/
def readableChunk (blake3 : Bytes → ChunkHash) (st : Store) (h : ChunkHash) : Bool :=
  (chunkFile st h).any fun data => decide (blake3 data = h)

def readableFile (blake3 : Bytes → ChunkHash) (st : Store) (entry : FileEntry) : Bool :=
  entry.chunkHashes.all (readableChunk blake3 st)

/-- The contents of the chunks of a file in their order. -/
def fileData (st : Store) (entry : FileEntry) : Bytes :=
  entry.chunkHashes.flatMap fun h => (chunkFile st h).getD []

def recoveredFile (st : Store) (entry : FileEntry) : RecoveredFile where
  path := entry.path
  size := UInt64.ofNat (fileData st entry).length
  data := fileData st entry
  chunkHashes := entry.chunkHashes.map ChunkHash.toHex

/-- The entries that a filter lets through. -/
def selectedEntries (fileFilter : Option (List String))
    (entries : List FileEntry) : List FileEntry :=
  entries.filter fun entry => fileFilter.all fun paths => paths.contains entry.path

section Files

variable {blake3 : Bytes → ChunkHash} {st : Store}

theorem recoverChunk_eq (h : ChunkHash) :
    recoverChunk blake3 st h =
      if readableChunk blake3 st h then .ok ((chunkFile st h).getD [])
      else .error (.chunkNotFound h.toHex) := by
  unfold recoverChunk readableChunk chunkFile ChunkStore.readChunk Store.readFile
  cases st.index.lookup h.toHex with
  | none =>
      rfl
  | some e =>
      cases hfile : st.files.lookup e.path with
      | none =>
          simp [hfile, bind, Except.bind]
      | some data =>
          by_cases hhash : blake3 data = h
          · simp [hfile, hhash, bind, Except.bind, pure, Except.pure]
          · simp [hfile, hhash, bind, Except.bind, throw, throwThe,
              MonadExceptOf.throw]

/-- The loop over the chunks stops at the first that cannot be read. -/
theorem foldlM_recoverChunk (hashes : List ChunkHash) (acc : Bytes × List String) :
    hashes.foldlM (fun (acc : Bytes × List String) h => do
        let chunk ← recoverChunk blake3 st h
        return (acc.1 ++ chunk, acc.2 ++ [h.toHex])) acc =
      match hashes.find? fun h => !readableChunk blake3 st h with
      | some h => .error (.chunkNotFound h.toHex)
      | none => .ok (acc.1 ++ hashes.flatMap fun h => (chunkFile st h).getD [],
          acc.2 ++ hashes.map ChunkHash.toHex) := by
  induction hashes generalizing acc with
  | nil =>
      simp [pure, Except.pure]
  | cons h hashes ih =>
      rw [List.foldlM_cons, recoverChunk_eq, List.find?_cons]
      by_cases hread : readableChunk blake3 st h = true
      · simp only [hread, if_true, Bool.not_true]
        refine (ih _).trans ?_
        simp only [List.flatMap_cons, List.map_cons, List.append_assoc,
          List.singleton_append]
      · simp only [hread, Bool.not_false]
        rfl

theorem readableFile_eq_true_iff {entry : FileEntry} :
    readableFile blake3 st entry = true ↔
      (entry.chunkHashes.find? fun h => !readableChunk blake3 st h) = none := by
  simp [readableFile]

theorem recoverFile_of_readable {entry : FileEntry}
    (h : readableFile blake3 st entry = true) :
    recoverFile blake3 st entry = .ok (recoveredFile st entry) := by
  rw [recoverFile, foldlM_recoverChunk, readableFile_eq_true_iff.mp h]
  rfl

/-- A file that cannot be recovered is reported with its first bad chunk. -/
theorem recoverFile_of_not_readable {entry : FileEntry}
    (h : ¬ readableFile blake3 st entry = true) :
    ∃ bad ∈ entry.chunkHashes, ¬ readableChunk blake3 st bad = true ∧
      recoverFile blake3 st entry = .error (.chunkNotFound bad.toHex) := by
  obtain ⟨bad, hbad⟩ :=
    Option.ne_none_iff_exists'.mp fun hnone => h (readableFile_eq_true_iff.mpr hnone)
  refine ⟨bad, List.mem_of_find?_eq_some hbad, by simpa using List.find?_some hbad, ?_⟩
  rw [recoverFile, foldlM_recoverChunk, hbad]
  rfl

/-- The result is the split of the given entries. -/
structure Splits (blake3 : Bytes → ChunkHash) (st : Store)
    (selected : List FileEntry) (result : RecoveryResult) : Prop where
  recovered : result.recoveredFiles =
    (selected.filter (readableFile blake3 st)).map (recoveredFile st)
  failed : result.failedFiles.map RecoveryFailure.path =
    (selected.filter fun entry => !readableFile blake3 st entry).map FileEntry.path
  reasons : ∀ failure ∈ result.failedFiles, ∃ entry ∈ selected,
    ∃ bad ∈ entry.chunkHashes, ¬ readableChunk blake3 st bad = true ∧
      failure = ⟨entry.path, (RecoveryError.chunkNotFound bad.toHex).message⟩
  totalBytes : result.totalBytes =
    UInt64.ofNat ((result.recoveredFiles.map fun file => file.data.length).sum)

theorem Splits.recovers {selected : List FileEntry} {result : RecoveryResult}
    (h : Splits blake3 st selected result) {entry : FileEntry}
    (hread : readableFile blake3 st entry = true) :
    Splits blake3 st (selected ++ [entry])
      { result with
        recoveredFiles := result.recoveredFiles ++ [recoveredFile st entry]
        totalBytes := result.totalBytes + (recoveredFile st entry).size } where
  recovered := by
    simp only [List.filter_append, List.filter_cons, hread, if_true, List.filter_nil,
      List.map_append, List.map_cons, List.map_nil, h.recovered]
  failed := by
    simp [List.filter_append, hread, h.failed]
  reasons := by
    intro failure hfailure
    obtain ⟨e, he, hrest⟩ := h.reasons failure hfailure
    exact ⟨e, List.mem_append_left _ he, hrest⟩
  totalBytes := by
    simp only [List.map_append, List.sum_append, List.map_cons, List.map_nil,
      List.sum_singleton, UInt64.ofNat_add, ← h.totalBytes]
    rfl

theorem Splits.reports {selected : List FileEntry} {result : RecoveryResult}
    (h : Splits blake3 st selected result) {entry : FileEntry} {bad : ChunkHash}
    (hbad : bad ∈ entry.chunkHashes) (hunreadable : ¬ readableChunk blake3 st bad = true) :
    Splits blake3 st (selected ++ [entry])
      { result with
        failedFiles := result.failedFiles ++
          [⟨entry.path, (RecoveryError.chunkNotFound bad.toHex).message⟩] } := by
  have hread : ¬ readableFile blake3 st entry = true := fun hall =>
    hunreadable (List.all_eq_true.mp hall bad hbad)
  refine ⟨?_, ?_, ?_, h.totalBytes⟩
  · simp [List.filter_append, hread, h.recovered]
  · simp [List.filter_append, hread, h.failed]
  · intro failure hfailure
    rcases List.mem_append.mp hfailure with hold | hnew
    · obtain ⟨e, he, hrest⟩ := h.reasons failure hold
      exact ⟨e, List.mem_append_left _ he, hrest⟩
    · exact ⟨entry, List.mem_append_right _ (List.mem_singleton_self _), bad,
        hbad, hunreadable, List.mem_singleton.mp hnew⟩

/-- One more entry is skipped, recovered or reported. -/
theorem Splits.recoverEntry {fileFilter : Option (List String)}
    {entries : List FileEntry} {result : RecoveryResult}
    (h : Splits blake3 st (selectedEntries fileFilter entries) result)
    (entry : FileEntry) :
    Splits blake3 st (selectedEntries fileFilter (entries ++ [entry]))
      (recoverEntry blake3 st fileFilter result entry) := by
  have hselected : selectedEntries fileFilter (entries ++ [entry]) =
      selectedEntries fileFilter entries ++
        selectedEntries fileFilter [entry] :=
    List.filter_append _ _
  have hskip : (fileFilter.any fun paths => !paths.contains entry.path) =
      !fileFilter.all fun paths => paths.contains entry.path := by
    cases fileFilter <;> simp
  rw [hselected]
  unfold RecoveryEngine.recoverEntry
  rw [hskip]
  by_cases hin : (fileFilter.all fun paths => paths.contains entry.path) = true
  · have hone : selectedEntries fileFilter [entry] = [entry] := by
      simp only [selectedEntries, List.filter_cons, hin, if_true, List.filter_nil]
    rw [hone, hin, if_neg (by simp)]
    by_cases hread : readableFile blake3 st entry = true
    · rw [recoverFile_of_readable hread]
      exact h.recovers hread
    · obtain ⟨bad, hbad, hunreadable, hfail⟩ := recoverFile_of_not_readable hread
      rw [hfail]
      exact h.reports hbad hunreadable
  · have hnone : selectedEntries fileFilter [entry] = [] := by
      simp only [selectedEntries, List.filter_cons, hin, List.filter_nil]
      rfl
    rw [hnone, List.append_nil, Bool.eq_false_iff.mpr hin, if_pos (by simp)]
    exact h

theorem splits_foldl (fileFilter : Option (List String)) (entries : List FileEntry)
    (snapshotId : Uuid) (versionId : VersionId) :
    Splits blake3 st (selectedEntries fileFilter entries)
      (entries.foldl (recoverEntry blake3 st fileFilter)
        { snapshotId := snapshotId
          versionId := versionId
          recoveredFiles := []
          failedFiles := []
          totalBytes := 0 }) := by
  induction entries using List.reverseRecOn with
  | nil =>
      exact ⟨rfl, rfl, fun _ hmem => absurd hmem List.not_mem_nil, rfl⟩
  | append_singleton entries entry ih =>
      rw [List.foldl_append]
      exact ih.recoverEntry entry

end Files

/-- The recovery of a sealed snapshot. -/
theorem recover_of_sealed
    {blake3 : Bytes → ChunkHash} {json : Json} {catalog : Catalog}
    {snapshot : Snapshot} (st : Store) (request : RecoveryRequest)
    (hread : SnapshotStore.readSnapshot json catalog request.snapshotId =
      .ok snapshot) (hsealed : snapshot.status = .sealed) :
    ∃ result, recover blake3 json st catalog request = .ok result ∧
      Splits blake3 st
        (selectedEntries request.fileFilter snapshot.fileTree.entries) result := by
  refine ⟨_, ?_, splits_foldl request.fileFilter snapshot.fileTree.entries
    request.snapshotId snapshot.versionId⟩
  simp only [recover, hread, hsealed, reduceCtorEq, if_false, ne_eq, not_true_eq_false]

/-- Only sealed snapshots are recovered. -/
theorem sealed_of_recover
    {blake3 : Bytes → ChunkHash} {json : Json} {catalog : Catalog} {st : Store}
    {request : RecoveryRequest} {result : RecoveryResult}
    (h : recover blake3 json st catalog request = .ok result) :
    ∃ snapshot, SnapshotStore.readSnapshot json catalog request.snapshotId =
      .ok snapshot ∧ snapshot.status = .sealed := by
  unfold recover at h
  split at h
  · cases h
  next snapshot hread =>
    split at h
    · cases h
    · split at h
      · cases h
      next _ hsealed =>
        exact ⟨snapshot, hread, not_not.mp hsealed⟩

/-- A sealed snapshot is recovered up to the files with bad chunks; any other
gives an error. -/
theorem recover_splits
    {blake3 : Bytes → ChunkHash} {json : Json} {catalog : Catalog}
    {snapshot : Snapshot} (st : Store) (request : RecoveryRequest)
    (hread : SnapshotStore.readSnapshot json catalog request.snapshotId =
      .ok snapshot) :
    (snapshot.status = .sealed →
      ∃ result, recover blake3 json st catalog request = .ok result ∧
        Splits blake3 st
          (selectedEntries request.fileFilter snapshot.fileTree.entries) result) ∧
    (snapshot.status ≠ .sealed →
      ∃ e, recover blake3 json st catalog request = .error e) := by
  constructor
  · intro hsealed
    exact recover_of_sealed st request hread hsealed
  · intro hnot
    simp only [recover, hread]
    split
    · exact ⟨_, rfl⟩
    · exact ⟨_, rfl⟩

section Example

/-- Two files, of whose chunks the second is not stored. -/
def damagedSnapshot : Snapshot :=
  { danglingSnapshot with
    fileTree :=
      { root := "/home"
        entries := [
          { path := "/home/a", size := 3, isDirectory := false
            chunkHashes := [abcHash, abcHash] },
          { path := "/home/b", size := 6, isDirectory := false
            chunkHashes := [abcHash, .ofEmpty] }] } }

/-- JSON with a reader that knows the text of that snapshot. -/
def damagedJson : Json :=
  Json.withReaders
    (fun _ => .error "EOF while parsing a value at line 1 column 0")
    (fun data =>
      if data = Hex.utf8 (Json.snapshot damagedSnapshot) then .ok damagedSnapshot
      else .error "EOF while parsing a value at line 1 column 0")

def damagedCatalog : Catalog :=
  { Catalog.empty with
    snapshots := (∅ : HashMap String Bytes).insert
      (SnapshotStore.snapshotName damagedSnapshot.snapshotId)
      (Hex.utf8 (Json.snapshot damagedSnapshot)) }

/-- The chunk with the bytes of `abc`. -/
def abcStore : Store where
  index := BadouIndex.inMemory.register abcHash.toHex
    (ChunkStore.newEntry ⟨"/data"⟩ ⟨1#128⟩ abcHash [0x61, 0x62, 0x63])
  files := (∅ : HashMap String Bytes).insert
    (BadouDataLayout.bucketPath ⟨"/data"⟩ ⟨1#128⟩ abcHash) [0x61, 0x62, 0x63]

theorem recover_splits_damaged :
    (damagedSnapshot.status = .sealed →
      ∃ result, recover (fun data => if data = [0x61, 0x62, 0x63] then abcHash
          else .ofEmpty) damagedJson abcStore damagedCatalog
          ⟨damagedSnapshot.snapshotId, none⟩ = .ok result ∧
        Splits (fun data => if data = [0x61, 0x62, 0x63] then abcHash else .ofEmpty)
          abcStore (selectedEntries none damagedSnapshot.fileTree.entries) result) ∧
    (damagedSnapshot.status ≠ .sealed →
      ∃ e, recover (fun data => if data = [0x61, 0x62, 0x63] then abcHash
        else .ofEmpty) damagedJson abcStore damagedCatalog
        ⟨damagedSnapshot.snapshotId, none⟩ = .error e) := by
  have hjson : damagedJson.snapshotFromSlice
      (Hex.utf8 (Json.snapshot damagedSnapshot)) = .ok damagedSnapshot := by
    rw [damagedJson, Json.withReaders_snapshotFromSlice, if_pos rfl]
  exact recover_splits abcStore ⟨damagedSnapshot.snapshotId, none⟩
    (SnapshotStore.readSnapshot_of_lookup (AList.lookup_insert _) hjson)

end Example

end RecoveryEngine
end Badou
end HyperBackup
