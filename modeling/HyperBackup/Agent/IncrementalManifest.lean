import HyperBackup.Agent.Chunker
import HyperBackup.Agent.Incremental
import HyperBackup.Lib.Words
import Mathlib.Data.List.Sort
import Mathlib.Data.Set.Function

/-!
# The manifest of an incremental backup

Two questions about the manifest that an incremental backup writes.

* Which files does it have?  Exactly the files of the source, less those that
  changed and could not be opened, if and only if every baseline file is still
  found; a file that is gone stays in the manifest, and a renamed file stays
  under its old path.
* Is a modified file recorded as it is?  The entry lists the new chunks before
  the reused ones.  This is the order of the file if and only if the reused
  part and the rest are repetitions of one list of chunks.
-/

namespace HyperBackup
namespace Agent
namespace IncrementalManifest

open Lib Lib.Program BackupEngine

section Definitions

variable (engine : BackupEngine) (source : Source) (run : Execution)
  (job : BackupJob) (baselineVersionId : VersionId)

/-- The run returns; `prev` is the baseline manifest it has read and `m` the
manifest it has built and written. -/
structure Produces (s : AgentState) (prev m : Manifest) : Prop where
  built : ∃ changedPaths p s₁,
    (engine.collectIncremental source run job baselineVersionId).run s =
        .ok (prev, changedPaths, p) s₁ ∧
      m = engine.incrementalManifest run baselineVersionId prev changedPaths p
  written : ∃ result s',
    (engine.runIncrementalBackup source run job baselineVersionId).run s =
        .ok result s' ∧
      s'.files.lookup (LocalRepository.manifestPath engine.root run.versionId) =
        some (engine.json.toVec m)

/-- The paths of a full scan, less the changed ones that cannot be opened. -/
def presentPaths (prev : Manifest) : Set String :=
  {path | path ∈ source.found.map FileEntry.path ∧
    ¬ ((∃ f ∈ source.found, f.path = path ∧
        FileTreeDiff.isChanged (baselineSnapshot baselineVersionId prev) f) ∧
      source.content path = none)}

/-- The files that the scanner sends. -/
def sentFiles (prev : Manifest) : List FileEntry :=
  scan source (some (baselineSnapshot baselineVersionId prev))

/-- The entry lists the chunks of the content in the order of their offsets,
these make up the content, and the file hash is that of the content. -/
def RecordedAsIs (chunks : List RawChunkData) (content : Bytes)
    (entry : FileEntry) : Prop :=
  ∃ pieces : List RawChunkData,
    pieces.Perm chunks ∧
    pieces.Pairwise (fun a b => a.offset < b.offset) ∧
    entry.chunks = pieces.map (fun chunk => engine.blake3 chunk.data) ∧
    pieces.flatMap RawChunkData.data = content ∧
    entry.fileHash = engine.sha256 content

/-- The number of leading chunks that are taken over from the baseline. -/
def reusedCount (baselineChunks : List ChunkHash) (chunks : List RawChunkData) :
    Nat :=
  ChunkDiff.alignedLength (chunks.map fun chunk => engine.blake3 chunk.data)
    baselineChunks

end Definitions

section Paths

variable {engine : BackupEngine} {source : Source} {run : Execution}
  {job : BackupJob} {baselineVersionId : VersionId} {s : AgentState}
  {prev m : Manifest}

/-- The files of the manifest: baseline files that were not sent, and the
entries of those that were. -/
theorem files_of_produces
    (h : Produces engine source run job baselineVersionId s prev m) :
    m.files =
        unchangedFiles prev
          ((sentFiles source baselineVersionId prev).map FileEntry.path) ++
        (sentFiles source baselineVersionId prev).filterMap
          (engine.incrementalEntry source job prev) ∧
      ∀ f ∈ sentFiles source baselineVersionId prev,
        (source.content f.path).isSome →
          (engine.incrementalEntry source job prev f).isSome := by
  obtain ⟨changedPaths, p, s₁, hcollect, rfl⟩ := h.built
  obtain ⟨hchanged, hfiles, hopened⟩ :=
    ensures_collectIncremental source run job baselineVersionId _ s₁ hcollect
  refine ⟨?_, hopened⟩
  change unchangedFiles prev changedPaths ++ p.files = _
  rw [hchanged, hfiles]
  rfl

/-- The paths of the manifest. -/
theorem mem_paths_iff
    (h : Produces engine source run job baselineVersionId s prev m)
    (path : String) :
    path ∈ m.files.map FileEntry.path ↔
      (path ∈ prev.files.map FileEntry.path ∧
        path ∉ (sentFiles source baselineVersionId prev).map FileEntry.path) ∨
      (path ∈ (sentFiles source baselineVersionId prev).map FileEntry.path ∧
        (source.content path).isSome) := by
  obtain ⟨hfiles, hopened⟩ := files_of_produces h
  rw [hfiles, List.map_append, List.mem_append]
  refine or_congr ?_ ?_
  · simp only [unchangedFiles, List.mem_map, List.mem_filter, decide_eq_true_eq]
    constructor
    · rintro ⟨f, ⟨hf, hnot⟩, rfl⟩
      exact ⟨⟨f, hf, rfl⟩, hnot⟩
    · rintro ⟨⟨f, hf, rfl⟩, hnot⟩
      exact ⟨f, ⟨hf, hnot⟩, rfl⟩
  · simp only [List.mem_map, List.mem_filterMap]
    constructor
    · rintro ⟨entry, ⟨f, hf, hentry⟩, rfl⟩
      obtain ⟨hpath, _, hcontent⟩ := path_size_of_incrementalEntry hentry
      rw [hpath]
      exact ⟨⟨f, hf, rfl⟩, hcontent⟩
    · rintro ⟨⟨f, hf, rfl⟩, hcontent⟩
      obtain ⟨entry, hentry⟩ :=
        Option.isSome_iff_exists.mp (hopened f hf hcontent)
      exact ⟨entry, ⟨f, hf, hentry⟩,
        (path_size_of_incrementalEntry hentry).1⟩

/-- A path that was sent was found. -/
theorem found_of_sent {path : String}
    (h : path ∈ (sentFiles source baselineVersionId prev).map FileEntry.path) :
    path ∈ source.found.map FileEntry.path := by
  obtain ⟨f, hf, rfl⟩ := List.mem_map.mp h
  exact List.mem_map.mpr
    ⟨f, (FileTreeDiff.mem_changed_of_mem_compute hf).1, rfl⟩

/-- If every baseline file is still found, the sent paths are those of the
changed files. -/
theorem sent_iff_changed
    (hstill : ∀ b ∈ prev.files, b.path ∈ source.found.map FileEntry.path)
    (path : String) :
    path ∈ (sentFiles source baselineVersionId prev).map FileEntry.path ↔
      ∃ f ∈ source.found, f.path = path ∧
        FileTreeDiff.isChanged (baselineSnapshot baselineVersionId prev) f := by
  rw [List.mem_map]
  constructor
  · rintro ⟨f, hf, rfl⟩
    obtain ⟨hfound, hchanged⟩ := FileTreeDiff.mem_changed_of_mem_compute hf
    exact ⟨f, hfound, rfl, hchanged⟩
  · rintro ⟨f, hf, rfl, hchanged⟩
    refine ⟨f, FileTreeDiff.mem_compute_of_subset ?_ hf hchanged, rfl⟩
    intro b hb
    obtain ⟨g, hg, rfl⟩ := List.mem_map.mp hb
    exact hstill g hg

/-- A found path that is not in the baseline belongs to a changed file. -/
theorem changed_of_not_baseline {path : String}
    (hfound : path ∈ source.found.map FileEntry.path)
    (hnot : path ∉ prev.files.map FileEntry.path) :
    ∃ f ∈ source.found, f.path = path ∧
      FileTreeDiff.isChanged (baselineSnapshot baselineVersionId prev) f := by
  obtain ⟨f, hf, rfl⟩ := List.mem_map.mp hfound
  refine ⟨f, hf, rfl, FileTreeDiff.isChanged_of_not_mem ?_⟩
  simpa [baselineSnapshot, Function.comp_def] using hnot

/-- A baseline path that is no longer found stays in the manifest. -/
theorem found_of_paths_eq
    (h : Produces engine source run job baselineVersionId s prev m)
    (heq : {path | path ∈ m.files.map FileEntry.path} =
      presentPaths source baselineVersionId prev) :
    ∀ b ∈ prev.files, b.path ∈ source.found.map FileEntry.path := by
  intro b hb
  by_cases hsent :
      b.path ∈ (sentFiles source baselineVersionId prev).map FileEntry.path
  · exact found_of_sent hsent
  · have hmem : b.path ∈ m.files.map FileEntry.path :=
      (mem_paths_iff h _).mpr (Or.inl ⟨List.mem_map.mpr ⟨b, hb, rfl⟩, hsent⟩)
    have hpresent : b.path ∈ presentPaths source baselineVersionId prev :=
      heq ▸ hmem
    exact hpresent.1

theorem paths_subset_presentPaths
    (h : Produces engine source run job baselineVersionId s prev m)
    (hstill : ∀ b ∈ prev.files, b.path ∈ source.found.map FileEntry.path) :
    {path | path ∈ m.files.map FileEntry.path} ⊆
      presentPaths source baselineVersionId prev := by
  intro path hpath
  rcases (mem_paths_iff h path).mp hpath with ⟨hbase, hnot⟩ | ⟨hsent, hopen⟩
  · obtain ⟨b, hb, rfl⟩ := List.mem_map.mp hbase
    refine ⟨hstill b hb, ?_⟩
    rintro ⟨hchanged, _⟩
    exact hnot ((sent_iff_changed hstill _).mpr hchanged)
  · refine ⟨found_of_sent hsent, ?_⟩
    rintro ⟨_, hnone⟩
    simp [hnone] at hopen

theorem presentPaths_subset_paths
    (h : Produces engine source run job baselineVersionId s prev m)
    (hstill : ∀ b ∈ prev.files, b.path ∈ source.found.map FileEntry.path) :
    presentPaths source baselineVersionId prev ⊆
      {path | path ∈ m.files.map FileEntry.path} := by
  rintro path ⟨hfound, hopen⟩
  refine (mem_paths_iff h path).mpr ?_
  by_cases hsent :
      path ∈ (sentFiles source baselineVersionId prev).map FileEntry.path
  · right
    refine ⟨hsent, Option.isSome_iff_ne_none.mpr fun hnone => hopen ?_⟩
    exact ⟨(sent_iff_changed hstill path).mp hsent, hnone⟩
  · left
    refine ⟨?_, hsent⟩
    by_contra hnot
    exact hsent ((sent_iff_changed hstill path).mpr
      (changed_of_not_baseline hfound hnot))

/-- The manifest has exactly the paths of the source, less the changed ones
that cannot be opened, iff every baseline path is still found. -/
theorem paths_eq_presentPaths_iff
    (h : Produces engine source run job baselineVersionId s prev m) :
    {path | path ∈ m.files.map FileEntry.path} =
        presentPaths source baselineVersionId prev ↔
      ∀ b ∈ prev.files, b.path ∈ source.found.map FileEntry.path := by
  constructor
  · exact found_of_paths_eq h
  · intro hstill
    exact Set.Subset.antisymm (paths_subset_presentPaths h hstill)
      (presentPaths_subset_paths h hstill)

/-- Once the files are collected the commit succeeds. -/
theorem produces_of_collect
    {changedPaths : List String} {p : Progress} {s₁ : AgentState}
    (h : (engine.collectIncremental source run job baselineVersionId).run s =
      .ok (prev, changedPaths, p) s₁) :
    Produces engine source run job baselineVersionId s prev
      (engine.incrementalManifest run baselineVersionId prev changedPaths p) where
  built := ⟨changedPaths, p, s₁, h, rfl⟩
  written := ⟨_, _, run_bind_eq_ok.mpr ⟨_, _, h, rfl⟩,
    LocalRepository.lookup_writeManifest_self⟩

/-- A baseline manifest that can be read is read. -/
theorem run_collectIncremental
    (hprev : LocalRepository.readManifest engine.root engine.json s.files
      baselineVersionId = .ok prev)
    {p : Progress} {s₁ : AgentState}
    (hfiles : ((sentFiles source baselineVersionId prev).foldlM
      (engine.incrementalFile source run job prev) .start).run s = .ok p s₁) :
    (engine.collectIncremental source run job baselineVersionId).run s =
      .ok (prev,
        (sentFiles source baselineVersionId prev).map FileEntry.path, p) s₁ := by
  refine run_bind_eq_ok.mpr ⟨s, s, rfl, ?_⟩
  refine run_bind_eq_ok.mpr ⟨prev, s, run_ofResult_eq_ok.mpr ⟨hprev, rfl⟩, ?_⟩
  exact run_bind_eq_ok.mpr ⟨p, s₁, hfiles, rfl⟩

end Paths

section PathExamples

/-- The baseline of the examples: one file `/data/a` of three bytes. -/
def exampleBaseline : Manifest where
  versionId := ⟨exampleUuid 3⟩
  timestamp := exampleTime
  parentVersionId := none
  versionNumber := 1
  backupType := .full
  files := [{ exampleFile "/data/a" 3 with
    chunks := [abcHash]
    fileHash := Sha256.hash abc }]
  chunkRefs := [{
    hash := abcHash
    versionId := ⟨exampleUuid 3⟩
    filePath := "/data/a"
    offset := 0 }]
  hashes := {
    manifestHash := zeroDigest
    fileIndexHash := zeroDigest
    chunkIndexHash := zeroDigest
    repoHash := zeroDigest }
  chunkLocations := ∅

/-- A machine whose repository holds the manifest of the baseline. -/
def exampleStart (platform : Platform) (prev : Manifest) : AgentState where
  files := Files.write ∅
    (LocalRepository.manifestPath platform.root prev.versionId)
    (platform.json.toVec prev)
  index := ∅
  journal := none
  chunkIdsDrawn := 0
  appendsLeft := none

theorem readManifest_exampleStart {platform : Platform} {prev : Manifest}
    (hjson : platform.json.fromSlice (platform.json.toVec prev) = .ok prev) :
    LocalRepository.readManifest platform.root platform.json
      (exampleStart platform prev).files prev.versionId = .ok prev :=
  LocalRepository.readManifest_eq_ok (by simp [exampleStart]) hjson

/-- A run for which the scanner sends nothing produces a manifest. -/
theorem exists_produces_of_sent_nil
    {platform : Platform} {prev : Manifest} (source : Source)
    (hjson : platform.json.fromSlice (platform.json.toVec prev) = .ok prev)
    (hsent : sentFiles source prev.versionId prev = []) :
    ∃ m, Produces (exampleEngine platform) source (exampleExecution 4)
      exampleJob prev.versionId (exampleStart platform prev) prev m :=
  ⟨_, produces_of_collect (run_collectIncremental
    (readManifest_exampleStart hjson) (by rw [hsent]; rfl))⟩

/-- The source after `/data/a` was renamed to `/data/b`. -/
def renamedSource : Source where
  found := [exampleFile "/data/b" 3]
  content := fun path => if path = "/data/b" then some abc else none
  totalFiles := 1

/-- The source with `/data/a` as it was. -/
def sameSource : Source where
  found := [exampleFile "/data/a" 3]
  content := fun path => if path = "/data/a" then some abc else none
  totalFiles := 1

/-- After a rename the manifest does not have the paths of the source. -/
theorem paths_ne_presentPaths_after_rename :
    ∃ m,
      Produces (exampleEngine (examplePlatform exampleBaseline)) renamedSource
        (exampleExecution 4) exampleJob exampleBaseline.versionId
        (exampleStart (examplePlatform exampleBaseline) exampleBaseline)
        exampleBaseline m ∧
      {path | path ∈ m.files.map FileEntry.path} ≠
        presentPaths renamedSource exampleBaseline.versionId exampleBaseline := by
  obtain ⟨m, hproduces⟩ := exists_produces_of_sent_nil renamedSource
    (fromSlice_toVec_examplePlatform exampleBaseline) (by decide)
  refine ⟨m, hproduces, ?_⟩
  intro hpaths
  exact absurd (found_of_paths_eq hproduces hpaths) (by decide)

/-- The result at a source that has not changed. -/
theorem paths_eq_presentPaths_iff_sameSource :
    ∃ m,
      Produces (exampleEngine (examplePlatform exampleBaseline)) sameSource
        (exampleExecution 4) exampleJob exampleBaseline.versionId
        (exampleStart (examplePlatform exampleBaseline) exampleBaseline)
        exampleBaseline m ∧
      ({path | path ∈ m.files.map FileEntry.path} =
          presentPaths sameSource exampleBaseline.versionId exampleBaseline ↔
        ∀ b ∈ exampleBaseline.files,
          b.path ∈ sameSource.found.map FileEntry.path) := by
  obtain ⟨m, hproduces⟩ := exists_produces_of_sent_nil sameSource
    (fromSlice_toVec_examplePlatform exampleBaseline) (by decide)
  exact ⟨m, hproduces, paths_eq_presentPaths_iff hproduces⟩

end PathExamples

section Order

variable {engine : BackupEngine}

theorem ofChunks_eq_reusedCount
    (baselineChunks : List ChunkHash) (chunks : List RawChunkData) :
    ChunkDiff.ofChunks engine.blake3 baselineChunks chunks =
      let n := reusedCount engine baselineChunks chunks
      { newChunks := chunks.drop n
        reusedChunks := chunks.take n
        reusedChunkRefs := (chunks.take n).map fun c => engine.blake3 c.data } :=
  ChunkDiff.ofChunks_eq chunks

/-- The chunk list of a modified file: the new chunks, then the reused ones. -/
theorem chunks_modifiedEntry
    (f : FileEntry) (baselineChunks : List ChunkHash)
    (chunks : List RawChunkData) :
    let n := reusedCount engine baselineChunks chunks
    (engine.modifiedEntry f
        (ChunkDiff.ofChunks engine.blake3 baselineChunks chunks)).chunks =
      (chunks.drop n ++ chunks.take n).map fun c => engine.blake3 c.data := by
  simp [modifiedEntry, ofChunks_eq_reusedCount]

theorem fileHash_modifiedEntry
    (f : FileEntry) (baselineChunks : List ChunkHash)
    (chunks : List RawChunkData) :
    let n := reusedCount engine baselineChunks chunks
    (engine.modifiedEntry f
        (ChunkDiff.ofChunks engine.blake3 baselineChunks chunks)).fileHash =
      engine.sha256
        (((chunks.drop n ++ chunks.take n).map RawChunkData.data).flatten) := by
  simp [modifiedEntry, ofChunks_eq_reusedCount, ChunkDiff.allChunks,
    List.flatMap_def]

/-- Lists with equal hashes are equal where the hash has no collision. -/
theorem map_data_eq_of_map_hash_eq
    {chunks : List RawChunkData}
    (hinj : Set.InjOn engine.blake3 {d | d ∈ chunks.map RawChunkData.data})
    {xs ys : List RawChunkData} (hxs : ∀ c ∈ xs, c ∈ chunks)
    (hys : ∀ c ∈ ys, c ∈ chunks)
    (h : xs.map (fun c => engine.blake3 c.data) =
      ys.map fun c => engine.blake3 c.data) :
    xs.map RawChunkData.data = ys.map RawChunkData.data := by
  induction xs generalizing ys with
  | nil =>
      cases ys with
      | nil =>
          rfl
      | cons y ys =>
          cases h
  | cons x xs ih =>
      cases ys with
      | nil =>
          cases h
      | cons y ys =>
          simp only [List.map_cons, List.cons.injEq] at h ⊢
          refine ⟨hinj ?_ ?_ h.1, ih (fun c hc => hxs c (by simp [hc]))
            (fun c hc => hys c (by simp [hc])) h.2⟩
          · exact List.mem_map.mpr ⟨x, hxs x (by simp), rfl⟩
          · exact List.mem_map.mpr ⟨y, hys y (by simp), rfl⟩

/-- Chunks in increasing order are determined by their set. -/
theorem eq_of_perm_of_pairwise_offset {xs ys : List RawChunkData}
    (hperm : xs.Perm ys)
    (hxs : xs.Pairwise fun a b => a.offset < b.offset)
    (hys : ys.Pairwise fun a b => a.offset < b.offset) : xs = ys := by
  refine hperm.eq_of_pairwise ?_ hxs hys
  intro a b _ _ hab hba
  omega

/-- An entry that records the file as it is lists the hashes in the order of
the file. -/
theorem chunks_eq_of_recordedAsIs
    {chunks : List RawChunkData} {content : Bytes} {entry : FileEntry}
    (hsorted : chunks.Pairwise fun a b => a.offset < b.offset)
    (h : RecordedAsIs engine chunks content entry) :
    entry.chunks = chunks.map fun c => engine.blake3 c.data := by
  obtain ⟨pieces, hperm, hpieces, horder, _, _⟩ := h
  rw [horder, eq_of_perm_of_pairwise_offset hperm hpieces hsorted]

/-- The entry that a modified file gets records it as it is iff the reused
chunks and the rest are repetitions of one list. -/
theorem recordedAsIs_modifiedEntry_iff
    (f : FileEntry) (baselineChunks : List ChunkHash)
    {chunks : List RawChunkData} {content : Bytes}
    (hconcat : chunks.flatMap RawChunkData.data = content)
    (hsorted : chunks.Pairwise fun a b => a.offset < b.offset)
    (hinj : Set.InjOn engine.blake3 {d | d ∈ chunks.map RawChunkData.data}) :
    RecordedAsIs engine chunks content (engine.modifiedEntry f
        (ChunkDiff.ofChunks engine.blake3 baselineChunks chunks)) ↔
      ∃ w i j,
        (chunks.take (reusedCount engine baselineChunks chunks)).map
            RawChunkData.data = Words.power w i ∧
        (chunks.drop (reusedCount engine baselineChunks chunks)).map
            RawChunkData.data = Words.power w j := by
  generalize hn : reusedCount engine baselineChunks chunks = n
  have hchunks : (engine.modifiedEntry f
        (ChunkDiff.ofChunks engine.blake3 baselineChunks chunks)).chunks =
      (chunks.drop n ++ chunks.take n).map fun c => engine.blake3 c.data :=
    hn ▸ chunks_modifiedEntry f baselineChunks chunks
  have hhash : (engine.modifiedEntry f
        (ChunkDiff.ofChunks engine.blake3 baselineChunks chunks)).fileHash =
      engine.sha256
        (((chunks.drop n ++ chunks.take n).map RawChunkData.data).flatten) :=
    hn ▸ fileHash_modifiedEntry f baselineChunks chunks
  rw [← Words.append_comm_iff, ← List.map_append, List.take_append_drop,
    ← List.map_append]
  constructor
  · intro hrecorded
    have horder := chunks_eq_of_recordedAsIs hsorted hrecorded
    rw [hchunks] at horder
    refine (map_data_eq_of_map_hash_eq hinj ?_ (fun c hc => hc) horder).symm
    intro c hc
    rcases List.mem_append.mp hc with hc | hc
    · exact List.mem_of_mem_drop hc
    · exact List.mem_of_mem_take hc
  · intro hdata
    refine ⟨chunks, List.Perm.refl _, hsorted, ?_, hconcat, ?_⟩
    · have hmap := congrArg (List.map engine.blake3) hdata
      rw [List.map_map, List.map_map] at hmap
      rw [hchunks]
      exact hmap.symm
    · rw [hhash, ← hdata, ← List.flatMap_def, hconcat]

variable {source : Source} {run : Execution} {job : BackupJob}
  {baselineVersionId : VersionId} {s : AgentState} {prev m : Manifest}

/-- The entry of a sent file that is in the baseline. -/
theorem incrementalEntry_of_baseline
    {f : FileEntry} {content : Bytes} {baselineChunks : List ChunkHash}
    {chunks : List RawChunkData}
    (hcontent : source.content f.path = some content)
    (hbase : (baselineFileChunks prev).lookup f.path = some baselineChunks)
    (hchunks : engine.chunker (job.chunkingProfile.toChunkStrategy f.size)
      content = .ok chunks) :
    engine.incrementalEntry source job prev f = some (engine.modifiedEntry f
      (ChunkDiff.ofChunks engine.blake3 baselineChunks chunks)) := by
  simp [incrementalEntry, hcontent, hbase, hchunks, Except.toOption]

/-- The manifest has the entry of a sent file of the baseline. -/
theorem modifiedEntry_mem_files
    (h : Produces engine source run job baselineVersionId s prev m)
    {f : FileEntry} (hf : f ∈ sentFiles source baselineVersionId prev)
    {content : Bytes} (hcontent : source.content f.path = some content)
    {baselineChunks : List ChunkHash}
    (hbase : (baselineFileChunks prev).lookup f.path = some baselineChunks)
    {chunks : List RawChunkData}
    (hchunks : engine.chunker (job.chunkingProfile.toChunkStrategy f.size)
      content = .ok chunks) :
    engine.modifiedEntry f
      (ChunkDiff.ofChunks engine.blake3 baselineChunks chunks) ∈ m.files := by
  rw [(files_of_produces h).1]
  exact List.mem_append_right _ (List.mem_filterMap.mpr
    ⟨f, hf, incrementalEntry_of_baseline hcontent hbase hchunks⟩)

/-- The manifest has an entry for a sent file of the baseline, and such an
entry records the file as it is iff the reused chunks and the rest are
repetitions of one list of chunks. -/
theorem recordedAsIs_iff
    (h : Produces engine source run job baselineVersionId s prev m)
    {f : FileEntry} (hf : f ∈ sentFiles source baselineVersionId prev)
    {content : Bytes} (hcontent : source.content f.path = some content)
    {baselineChunks : List ChunkHash}
    (hbase : (baselineFileChunks prev).lookup f.path = some baselineChunks)
    {chunks : List RawChunkData}
    (hchunks : engine.chunker (job.chunkingProfile.toChunkStrategy f.size)
      content = .ok chunks)
    (hconcat : chunks.flatMap RawChunkData.data = content)
    (hsorted : chunks.Pairwise fun a b => a.offset < b.offset)
    (hinj : Set.InjOn engine.blake3 {d | d ∈ chunks.map RawChunkData.data}) :
    (∃ entry ∈ m.files, entry.path = f.path ∧ entry.size = f.size) ∧
      ∀ entry ∈ m.files, entry.path = f.path → entry.size = f.size →
        (RecordedAsIs engine chunks content entry ↔
          ∃ w i j,
            (chunks.take (reusedCount engine baselineChunks chunks)).map
                RawChunkData.data = Words.power w i ∧
            (chunks.drop (reusedCount engine baselineChunks chunks)).map
                RawChunkData.data = Words.power w j) := by
  refine ⟨⟨_, modifiedEntry_mem_files h hf hcontent hbase hchunks, rfl, rfl⟩, ?_⟩
  · intro entry hmem hpath hsize
    rw [(files_of_produces h).1] at hmem
    rcases List.mem_append.mp hmem with hmem | hmem
    · -- A kept baseline entry has a path that was not sent.
      have hnot := (List.mem_filter.mp hmem).2
      rw [hpath, decide_eq_true_eq] at hnot
      exact absurd (List.mem_map.mpr ⟨f, hf, rfl⟩) hnot
    · obtain ⟨g, _, hg⟩ := List.mem_filterMap.mp hmem
      obtain ⟨hgpath, hgsize, _⟩ := path_size_of_incrementalEntry hg
      rw [hpath] at hgpath
      rw [hsize] at hgsize
      rw [incrementalEntry_of_baseline (f := g) (hgpath ▸ hcontent)
        (hgpath ▸ hbase) (hgsize ▸ hchunks), Option.some.injEq] at hg
      rw [← hg]
      exact recordedAsIs_modifiedEntry_iff g baselineChunks hconcat hsorted hinj

/-- A run whose only sent file is in the baseline and has chunks that the
index knows produces a manifest. -/
theorem exists_produces_of_known
    (hprev : LocalRepository.readManifest engine.root engine.json s.files
      baselineVersionId = .ok prev)
    {f : FileEntry} (hsent : sentFiles source baselineVersionId prev = [f])
    {content : Bytes} (hcontent : source.content f.path = some content)
    {baselineChunks : List ChunkHash}
    (hbase : (baselineFileChunks prev).lookup f.path = some baselineChunks)
    {chunks : List RawChunkData}
    (hchunks : engine.chunker (job.chunkingProfile.toChunkStrategy f.size)
      content = .ok chunks)
    (hknown : ∀ c ∈ chunks, (s.index.lookup (engine.blake3 c.data)).isSome) :
    ∃ m, Produces engine source run job baselineVersionId s prev m := by
  have hloop : Returns
      ((ChunkDiff.ofChunks engine.blake3 baselineChunks chunks).newChunks.foldlM
        (engine.processChunk run.versionId f.path) .start) s
      (fun _ s' => s' = s) := by
    refine returns_foldlM _ (fun _ _ s' => s' = s) rfl ?_
    rintro done c rest p _ hsplit rfl
    have hmem : c ∈ chunks := by
      have hnew : c ∈ (ChunkDiff.ofChunks engine.blake3 baselineChunks
          chunks).newChunks := by
        rw [hsplit]
        simp
      rw [ofChunks_eq_reusedCount] at hnew
      exact List.mem_of_mem_drop hnew
    obtain ⟨known, hlookup⟩ := Option.isSome_iff_exists.mp (hknown c hmem)
    exact returns_bind_of_run (run_storeChunk_of_known hlookup c.data)
      (returns_pure rfl)
  have hcompute : ChunkDiff.compute engine content baselineChunks
      (job.chunkingProfile.toChunkStrategy f.size) =
        .ok (ChunkDiff.ofChunks engine.blake3 baselineChunks chunks) := by
    simp [ChunkDiff.compute, hchunks, bind, Except.bind, pure, Except.pure]
  have hfile : Returns (engine.incrementalFile source run job prev .start f) s
      (fun _ _ => True) := by
    simp only [incrementalFile, hcontent, hbase]
    refine returns_bind_of_run (run_ofResult_eq_ok.mpr ⟨hcompute, rfl⟩) ?_
    exact returns_bind hloop fun p s₁ _ => returns_pure trivial
  obtain ⟨p, s₁, hrun, _⟩ := hfile
  have hfiles : ((sentFiles source baselineVersionId prev).foldlM
      (engine.incrementalFile source run job prev) .start).run s = .ok p s₁ := by
    rw [hsent, List.foldlM_cons]
    exact run_bind_eq_ok.mpr ⟨p, s₁, hrun, rfl⟩
  exact ⟨_, produces_of_collect (run_collectIncremental hprev hfiles)⟩

end Order

section OrderExamples

/-- Every modified file of the run is recorded as it is. -/
def RecordsModifiedFiles (engine : BackupEngine) (source : Source)
    (run : Execution) (job : BackupJob) (baselineVersionId : VersionId)
    (s : AgentState) : Prop :=
  ∀ prev m, Produces engine source run job baselineVersionId s prev m →
    ∀ f ∈ sentFiles source baselineVersionId prev,
      ((baselineFileChunks prev).lookup f.path).isSome →
      ∀ content chunks, source.content f.path = some content →
        engine.chunker (job.chunkingProfile.toChunkStrategy f.size) content =
          .ok chunks →
        ∀ entry ∈ m.files, entry.path = f.path → entry.size = f.size →
          RecordedAsIs engine chunks content entry

/-- The first 256 KiB of the file of the example. -/
def firstChunk : Bytes :=
  List.replicate 262144 0

/-- The baseline in which `/data/a` has one chunk of 256 KiB. -/
def grownBaseline (platform : Platform) : Manifest :=
  { exampleBaseline with
    files := [{ exampleFile "/data/a" 262144 with
      chunks := [platform.blake3 firstChunk]
      fileHash := platform.sha256 firstChunk }] }

/-- The source after one byte was appended to `/data/a`. -/
def grownSource : Source where
  found := [exampleFile "/data/a" 262145]
  content := fun path =>
    if path = "/data/a" then some (firstChunk ++ [1]) else none
  totalFiles := 1

/-- The example machine with an index that knows the given chunks. -/
def knowing (platform : Platform) (prev : Manifest) (known : List Bytes) :
    AgentState :=
  { exampleStart platform prev with
    index := HashMap.collect (known.map fun data =>
      (platform.blake3 data,
        { location := chunkLocation (platform.blake3 data),
          referenceCount := 1 })) }

theorem isSome_lookup_knowing {platform : Platform} {prev : Manifest}
    {known : List Bytes} {data : Bytes} (h : data ∈ known) :
    ((knowing platform prev known).index.lookup
      (platform.blake3 data)).isSome := by
  refine (HashMap.isSome_lookup_collect _ _).mpr ?_
  simp only [List.map_map, List.mem_map]
  exact ⟨data, h, rfl⟩

theorem chunk_grown :
    FixedChunker.chunk (exampleJob.chunkingProfile.toChunkStrategy 262145)
        (firstChunk ++ [1]) =
      .ok [{ offset := 0, data := firstChunk },
        { offset := 262144, data := [1] }] := by
  have hlen : firstChunk.length = 262144 := List.length_replicate
  have hfuel : (firstChunk ++ [1]).length = 262143 + 1 + 1 := by
    rw [List.length_append, hlen]
    rfl
  have hsize : FixedChunker.chunkSize
      (exampleJob.chunkingProfile.toChunkStrategy 262145) = 262144 :=
    rfl
  rw [FixedChunker.chunk_toChunkStrategy, hsize, hfuel,
    FixedChunker.pieces_append (by decide) hlen,
    FixedChunker.pieces_of_length_le (by decide) (by decide)]

/-- A byte appended to a file of one full chunk is recorded before that chunk,
whatever the hash functions are. -/
theorem not_recordsModifiedFiles_grown {platform : Platform}
    (hjson : platform.json.fromSlice
        (platform.json.toVec (grownBaseline platform)) =
      .ok (grownBaseline platform))
    (hne : platform.blake3 firstChunk ≠ platform.blake3 [1]) :
    ¬ RecordsModifiedFiles (exampleEngine platform) grownSource
      (exampleExecution 4) exampleJob exampleBaseline.versionId
      (knowing platform (grownBaseline platform) [firstChunk, [1]]) := by
  intro hlaw
  have hsent : sentFiles grownSource exampleBaseline.versionId
      (grownBaseline platform) = [exampleFile "/data/a" 262145] := by
    rfl
  have hbase : (baselineFileChunks (grownBaseline platform)).lookup "/data/a" =
      some [platform.blake3 firstChunk] := by
    rfl
  have hcontent : grownSource.content "/data/a" = some (firstChunk ++ [1]) := by
    simp [grownSource]
  have hchunks : (exampleEngine platform).chunker
      (exampleJob.chunkingProfile.toChunkStrategy
        (exampleFile "/data/a" 262145).size) (firstChunk ++ [1]) = _ :=
    chunk_grown
  obtain ⟨m, hproduces⟩ : ∃ m, Produces (exampleEngine platform) grownSource
      (exampleExecution 4) exampleJob exampleBaseline.versionId
      (knowing platform (grownBaseline platform) [firstChunk, [1]])
      (grownBaseline platform) m := by
    refine exists_produces_of_known (readManifest_exampleStart hjson) hsent
      hcontent hbase hchunks ?_
    intro c hc
    refine isSome_lookup_knowing ?_
    rcases List.mem_cons.mp hc with rfl | hc
    · simp
    · cases List.mem_singleton.mp hc
      simp
  have hmem := modifiedEntry_mem_files hproduces (hsent ▸ List.mem_singleton_self _)
    hcontent hbase hchunks
  have hrecorded := hlaw _ m hproduces _ (hsent ▸ List.mem_singleton_self _)
    rfl _ _ hcontent hchunks _ hmem rfl rfl
  have horder := chunks_eq_of_recordedAsIs (by simp) hrecorded
  rw [chunks_modifiedEntry] at horder
  have hone : reusedCount (exampleEngine platform) [platform.blake3 firstChunk]
      [{ offset := 0, data := firstChunk }, { offset := 262144, data := [1] }] =
        1 := by
    simp [reusedCount, ChunkDiff.alignedLength, exampleEngine]
  rw [hone] at horder
  exact hne (List.cons.inj horder).1.symm

/-- The BLAKE3 hash of 256 KiB of zeros. -/
def firstChunkHash : ChunkHash :=
  ⟨⟨[
    0x86, 0xbb, 0x2b, 0x52, 0x1a, 0x10, 0x61, 0x2d,
    0x5a, 0x1d, 0x38, 0x20, 0x4f, 0xac, 0x4f, 0xa6,
    0x32, 0x46, 0x6d, 0x18, 0x66, 0x14, 0x4d, 0x8a,
    0x6a, 0x7e, 0x3a, 0xfc, 0x05, 0x0c, 0xe7, 0xae], rfl⟩⟩

/-- The BLAKE3 hash of the byte 1. -/
def appendedHash : ChunkHash :=
  ⟨⟨[
    0x48, 0xfc, 0x72, 0x1f, 0xbb, 0xc1, 0x72, 0xe0,
    0x92, 0x5f, 0xa2, 0x7a, 0xf1, 0x67, 0x1d, 0xe2,
    0x25, 0xba, 0x92, 0x71, 0x34, 0x80, 0x29, 0x98,
    0xb1, 0x0a, 0x15, 0x68, 0xa1, 0x88, 0x65, 0x2b], rfl⟩⟩

/-- The example platform with the hashes of the two chunks. -/
def grownHashes : Platform :=
  { examplePlatform exampleBaseline with
    blake3 := fun data => if data = [1] then appendedHash else firstChunkHash }

/-- That platform with JSON that reads the baseline of the grown file. -/
def grownPlatform : Platform :=
  { grownHashes with json := exampleJson (grownBaseline grownHashes) }

/-- JSON on the grown platform reads the baseline of the grown file. -/
theorem fromSlice_toVec_grownPlatform :
    grownPlatform.json.fromSlice
        (grownPlatform.json.toVec (grownBaseline grownPlatform)) =
      .ok (grownBaseline grownPlatform) := by
  have hbaseline : grownBaseline grownPlatform = grownBaseline grownHashes := by
    simp only [grownBaseline, grownPlatform]
  rw [hbaseline]
  simp [grownPlatform, exampleJson]

/-- One byte is appended to a file of 256 KiB. -/
theorem recordsModifiedFiles_fails_after_append :
    ¬ RecordsModifiedFiles (exampleEngine grownPlatform) grownSource
      (exampleExecution 4) exampleJob exampleBaseline.versionId
      (knowing grownPlatform (grownBaseline grownPlatform)
        [firstChunk, [1]]) := by
  apply not_recordsModifiedFiles_grown fromSlice_toVec_grownPlatform
  have hother : firstChunk ≠ [1] := by
    intro h
    have hlen := congrArg List.length h
    rw [firstChunk, List.length_replicate] at hlen
    simp at hlen
  simp only [grownPlatform, grownHashes, ↓reduceIte, if_neg hother]
  decide

/-- The source after the content of `/data/a` was appended to it once more. -/
def doubledSource : Source where
  found := [exampleFile "/data/a" 524288]
  content := fun path =>
    if path = "/data/a" then some (firstChunk ++ firstChunk) else none
  totalFiles := 1

def doubledChunks : List RawChunkData :=
  [{ offset := 0, data := firstChunk }, { offset := 262144, data := firstChunk }]

theorem chunk_doubled :
    FixedChunker.chunk (exampleJob.chunkingProfile.toChunkStrategy 524288)
        (firstChunk ++ firstChunk) = .ok doubledChunks := by
  have hlen : firstChunk.length = 262144 := List.length_replicate
  have hne : firstChunk ≠ [] := by
    intro hnil
    rw [hnil] at hlen
    cases hlen
  have hfuel : (firstChunk ++ firstChunk).length = 524286 + 1 + 1 := by
    rw [List.length_append, hlen]
  have hsize : FixedChunker.chunkSize
      (exampleJob.chunkingProfile.toChunkStrategy 524288) = 262144 :=
    rfl
  rw [FixedChunker.chunk_toChunkStrategy, hsize, hfuel,
    FixedChunker.pieces_append (by decide) hlen,
    FixedChunker.pieces_of_length_le hne (by rw [hlen])]
  rfl

/-- The first chunk of the doubled file is reused, the second is not. -/
theorem reusedCount_doubled (platform : Platform) :
    reusedCount (exampleEngine platform) [platform.blake3 firstChunk]
      doubledChunks = 1 := by
  simp [reusedCount, doubledChunks, ChunkDiff.alignedLength, exampleEngine]

/-- A run over the doubled file produces a manifest. -/
theorem exists_produces_doubled {platform : Platform}
    (hjson : platform.json.fromSlice
        (platform.json.toVec (grownBaseline platform)) =
      .ok (grownBaseline platform)) :
    ∃ m, Produces (exampleEngine platform) doubledSource (exampleExecution 4)
      exampleJob exampleBaseline.versionId
      (knowing platform (grownBaseline platform) [firstChunk])
      (grownBaseline platform) m := by
  have hsent : sentFiles doubledSource exampleBaseline.versionId
      (grownBaseline platform) = [exampleFile "/data/a" 524288] := by
    rfl
  have hbase : (baselineFileChunks (grownBaseline platform)).lookup "/data/a" =
      some [platform.blake3 firstChunk] := by
    rfl
  have hcontent : doubledSource.content "/data/a" =
      some (firstChunk ++ firstChunk) := by
    simp [doubledSource]
  have hchunks : (exampleEngine platform).chunker
      (exampleJob.chunkingProfile.toChunkStrategy
        (exampleFile "/data/a" 524288).size) (firstChunk ++ firstChunk) = _ :=
    chunk_doubled
  refine exists_produces_of_known (readManifest_exampleStart hjson) hsent
    hcontent hbase hchunks ?_
  intro c hc
  refine isSome_lookup_knowing ?_
  have hdata : c.data = firstChunk := by
    rcases List.mem_cons.mp hc with rfl | hc
    · rfl
    · rw [List.mem_singleton.mp hc]
  rw [hdata]
  exact List.mem_singleton_self _

/-- A file that repeats its one baseline chunk is recorded as it is: one chunk
is reused, one is new, and they are equal. -/
theorem recordedAsIs_iff_doubled :
    reusedCount (exampleEngine grownPlatform)
        [grownPlatform.blake3 firstChunk] doubledChunks = 1 ∧
      ∃ m,
        Produces (exampleEngine grownPlatform) doubledSource
          (exampleExecution 4) exampleJob exampleBaseline.versionId
          (knowing grownPlatform (grownBaseline grownPlatform) [firstChunk])
          (grownBaseline grownPlatform) m ∧
        ∃ entry ∈ m.files, entry.path = "/data/a" ∧ entry.size = 524288 ∧
          RecordedAsIs (exampleEngine grownPlatform) doubledChunks
            (firstChunk ++ firstChunk) entry := by
  obtain ⟨m, hproduces⟩ :=
    exists_produces_doubled fromSlice_toVec_grownPlatform
  have hcontent : doubledSource.content "/data/a" =
      some (firstChunk ++ firstChunk) := by
    simp [doubledSource]
  refine ⟨reusedCount_doubled grownPlatform, m, hproduces, ?_⟩
  have hiff := @recordedAsIs_iff (exampleEngine grownPlatform) doubledSource
    (exampleExecution 4) exampleJob exampleBaseline.versionId _ _ m hproduces
    (exampleFile "/data/a" 524288) (List.mem_singleton_self _)
    (firstChunk ++ firstChunk) hcontent
    [grownPlatform.blake3 firstChunk] rfl doubledChunks chunk_doubled
    (by simp [doubledChunks]) (by simp [doubledChunks])
    (by simp [doubledChunks, Set.InjOn])
  obtain ⟨⟨entry, hmem, hpath, hsize⟩, hrecorded⟩ := hiff
  refine ⟨entry, hmem, hpath, hsize, (hrecorded entry hmem hpath hsize).mpr ?_⟩
  rw [reusedCount_doubled]
  exact ⟨[firstChunk], 1, 1, rfl, rfl⟩

end OrderExamples

end IncrementalManifest
end Agent
end HyperBackup
