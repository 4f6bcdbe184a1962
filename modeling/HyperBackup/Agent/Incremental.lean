import HyperBackup.Agent.Engine

/-!
# Incremental backups

An incremental backup takes an earlier version as its baseline.  The scanner
sends the files that were added or modified; a file that is in the baseline is
compared chunk by chunk with its earlier chunk list.  The new manifest joins
the baseline entries of the other files with the entries of the sent files.
-/

namespace HyperBackup
namespace Agent

open Lib Lib.Program

structure ChunkDiff where
  newChunks : List RawChunkData
  reusedChunks : List RawChunkData
  reusedChunkRefs : List ChunkHash
deriving DecidableEq

namespace ChunkDiff

/-- The comparison while the chunks come in. -/
structure Alignment where
  diff : ChunkDiff
  alignmentBroken : Bool
  chunkIndex : Nat

def Alignment.start : Alignment where
  diff := { newChunks := [], reusedChunks := [], reusedChunkRefs := [] }
  alignmentBroken := false
  chunkIndex := 0

/-- Compare the next chunk with the baseline chunk at the same index, as long
as no earlier chunk was different. -/
def addChunk (blake3 : Bytes → ChunkHash) (baselineChunks : List ChunkHash)
    (a : Alignment) (chunk : RawChunkData) : Alignment :=
  let hash := blake3 chunk.data
  let asNew := { a.diff with newChunks := a.diff.newChunks ++ [chunk] }
  if ¬ a.alignmentBroken ∧ a.chunkIndex < baselineChunks.length then
    if baselineChunks[a.chunkIndex]? = some hash then
      { a with
        diff := { a.diff with
          reusedChunks := a.diff.reusedChunks ++ [chunk]
          reusedChunkRefs := a.diff.reusedChunkRefs ++ [hash] }
        chunkIndex := a.chunkIndex + 1 }
    else
      { diff := asNew, alignmentBroken := true, chunkIndex := a.chunkIndex + 1 }
  else
    { a with diff := asNew, chunkIndex := a.chunkIndex + 1 }

/-- Compare the chunks of a file with its baseline chunks. -/
def ofChunks (blake3 : Bytes → ChunkHash) (baselineChunks : List ChunkHash)
    (chunks : List RawChunkData) : ChunkDiff :=
  (chunks.foldl (addChunk blake3 baselineChunks) .start).diff

def compute (engine : BackupEngine) (content : Bytes)
    (baselineChunks : List ChunkHash) (strategy : ChunkStrategy) :
    Except ChunkError ChunkDiff := do
  let chunks ← engine.chunker strategy content
  return ofChunks engine.blake3 baselineChunks chunks

/-- The new chunks, followed by the reused ones. -/
def allChunks (diff : ChunkDiff) : List RawChunkData :=
  diff.newChunks ++ diff.reusedChunks

/-- The number of leading hashes that two lists share. -/
def alignedLength : List ChunkHash → List ChunkHash → Nat
  | h :: hs, b :: bs => if h = b then alignedLength hs bs + 1 else 0
  | _, _ => 0

section Specs

variable {blake3 : Bytes → ChunkHash} {baselineChunks : List ChunkHash}

theorem addChunk_of_broken {a : Alignment} (chunk : RawChunkData)
    (h : ¬ (¬ a.alignmentBroken ∧ a.chunkIndex < baselineChunks.length)) :
    addChunk blake3 baselineChunks a chunk =
      { a with
        diff := { a.diff with newChunks := a.diff.newChunks ++ [chunk] }
        chunkIndex := a.chunkIndex + 1 } :=
  if_neg h

/-- Once the alignment is broken or the baseline is used up, every chunk is
new. -/
theorem foldl_addChunk_of_broken (chunks : List RawChunkData) :
    ∀ a : Alignment,
      ¬ (¬ a.alignmentBroken ∧ a.chunkIndex < baselineChunks.length) →
      (chunks.foldl (addChunk blake3 baselineChunks) a).diff =
        { a.diff with newChunks := a.diff.newChunks ++ chunks } := by
  induction chunks with
  | nil =>
      intro a _
      simp
  | cons chunk chunks ih =>
      intro a h
      rw [List.foldl_cons, addChunk_of_broken chunk h, ih]
      · simp
      · intro h'
        exact h ⟨h'.1, by have := h'.2; simp at this; omega⟩

/-- The comparison goes on with what is left of the baseline. -/
theorem foldl_addChunk (chunks : List RawChunkData) :
    ∀ a : Alignment, a.alignmentBroken = false →
      (chunks.foldl (addChunk blake3 baselineChunks) a).diff =
        let n := alignedLength (chunks.map fun c => blake3 c.data)
          (baselineChunks.drop a.chunkIndex)
        { newChunks := a.diff.newChunks ++ chunks.drop n
          reusedChunks := a.diff.reusedChunks ++ chunks.take n
          reusedChunkRefs := a.diff.reusedChunkRefs ++
            (chunks.take n).map fun c => blake3 c.data } := by
  induction chunks with
  | nil =>
      intro a _
      simp
  | cons chunk chunks ih =>
      intro a halign
      by_cases hlt : a.chunkIndex < baselineChunks.length
      · by_cases heq : blake3 chunk.data = baselineChunks[a.chunkIndex]
        · have hn : alignedLength
                ((chunk :: chunks).map fun c => blake3 c.data)
                (baselineChunks.drop a.chunkIndex) =
              alignedLength (chunks.map fun c => blake3 c.data)
                (baselineChunks.drop (a.chunkIndex + 1)) + 1 := by
            rw [List.drop_eq_getElem_cons hlt]
            exact if_pos heq
          have hstep : addChunk blake3 baselineChunks a chunk =
              { a with
                diff := { a.diff with
                  reusedChunks := a.diff.reusedChunks ++ [chunk]
                  reusedChunkRefs :=
                    a.diff.reusedChunkRefs ++ [blake3 chunk.data] }
                chunkIndex := a.chunkIndex + 1 } := by
            simp [addChunk, halign, hlt, heq]
          rw [List.foldl_cons, hstep, hn]
          refine (ih _ ?_).trans ?_
          · exact halign
          · simp
        · have hn : alignedLength
                ((chunk :: chunks).map fun c => blake3 c.data)
                (baselineChunks.drop a.chunkIndex) = 0 := by
            rw [List.drop_eq_getElem_cons hlt]
            exact if_neg heq
          have hstep : addChunk blake3 baselineChunks a chunk =
              { diff := { a.diff with newChunks := a.diff.newChunks ++ [chunk] }
                alignmentBroken := true
                chunkIndex := a.chunkIndex + 1 } := by
            simp [addChunk, halign, hlt, Ne.symm heq]
          rw [List.foldl_cons, hstep, hn]
          refine (foldl_addChunk_of_broken _ _ ?_).trans ?_
          · simp
          · simp
      · rw [foldl_addChunk_of_broken _ _ (by simp [hlt]),
          List.drop_eq_nil_of_le (by omega)]
        simp [alignedLength]

/-- The reused chunks are the longest common part at the start of the file. -/
theorem ofChunks_eq (chunks : List RawChunkData) :
    ofChunks blake3 baselineChunks chunks =
      let n := alignedLength (chunks.map fun c => blake3 c.data) baselineChunks
      { newChunks := chunks.drop n
        reusedChunks := chunks.take n
        reusedChunkRefs := (chunks.take n).map fun c => blake3 c.data } := by
  unfold ofChunks
  rw [foldl_addChunk chunks _ rfl]
  simp [Alignment.start]

end Specs

end ChunkDiff

namespace BackupEngine

section Operations

variable (engine : BackupEngine)

/-- The snapshot of a version that the scanner compares with. -/
def baselineSnapshot (versionId : VersionId) (prevManifest : Manifest) :
    BackupSnapshot where
  versionId := versionId
  timestamp := prevManifest.timestamp
  files := prevManifest.files.map fun f =>
    { path := f.path, size := f.size, mtime := f.modifiedAt,
      fileHash := f.fileHash }

def baselineFileChunks (prevManifest : Manifest) :
    HashMap String (List ChunkHash) :=
  HashMap.collect (prevManifest.files.map fun f => (f.path, f.chunks))

/-- Record a reused chunk with the location that the baseline has for it. -/
def reuseChunk (versionId : VersionId) (prevManifest : Manifest)
    (path : String) (diff : ChunkDiff) (p : Progress) (ref : ChunkHash × Nat) :
    Progress :=
  let (hash, i) := ref
  { p with
    chunkCount := p.chunkCount + 1
    chunkLocations :=
      match prevManifest.chunkLocations.lookup hash.toHex with
      | some location =>
          HashMap.insertIfNew p.chunkLocations hash.toHex location
      | none => p.chunkLocations
    chunkRefs := p.chunkRefs ++ [{
      hash := hash
      versionId := versionId
      filePath := path
      offset := ((diff.reusedChunks[i]?).map RawChunkData.offset).getD 0 }] }

/-- The manifest entry of a file of the baseline: its new chunks, then the
reused ones; the file hash is over their data in that order. -/
def modifiedEntry (entry : FileEntry) (diff : ChunkDiff) : FileEntry :=
  { entry with
    chunks := (diff.newChunks.map fun chunk => engine.blake3 chunk.data) ++
      diff.reusedChunkRefs
    fileHash := engine.sha256 (diff.allChunks.flatMap RawChunkData.data) }

/-- Store the new chunks of a file of the baseline. -/
def processModified (versionId : VersionId) (job : BackupJob)
    (prevManifest : Manifest) (baselineChunks : List ChunkHash) (p : Progress)
    (entry : FileEntry) (content : Bytes) : EngineM Progress := do
  let diff ← ofResult (fun e => .failed (.chunk e))
    (ChunkDiff.compute engine content baselineChunks
      (job.chunkingProfile.toChunkStrategy entry.size))
  let p ← diff.newChunks.foldlM (engine.processChunk versionId entry.path) p
  let p := diff.reusedChunkRefs.zipIdx.foldl
    (reuseChunk versionId prevManifest entry.path diff) p
  return { p with
    files := p.files ++ [engine.modifiedEntry entry diff]
    dataProcessed := p.dataProcessed +
      (diff.allChunks.flatMap RawChunkData.data).length }

/-- One file that the scanner sends. -/
def incrementalFile (source : Source) (run : Execution) (job : BackupJob)
    (prevManifest : Manifest) (p : Progress) (entry : FileEntry) :
    EngineM Progress :=
  match source.content entry.path with
  | none => return { p with skippedFiles := p.skippedFiles ++ [entry.path] }
  | some content =>
      match (baselineFileChunks prevManifest).lookup entry.path with
      | some baselineChunks =>
          engine.processModified run.versionId job prevManifest baselineChunks p
            entry content
      | none => engine.processFile run.versionId job p entry content

/-- An incremental backup up to its commit: the baseline manifest, the paths
the scanner sent and what was collected. -/
def collectIncremental (source : Source) (run : Execution) (job : BackupJob)
    (baselineVersionId : VersionId) :
    EngineM (Manifest × List String × Progress) := do
  let s ← get
  let prevManifest ← ofResult (fun e => .failed (.repo e))
    (LocalRepository.readManifest engine.root engine.json s.files
      baselineVersionId)
  let sent := scan source
    (some (baselineSnapshot baselineVersionId prevManifest))
  let p ← sent.foldlM (engine.incrementalFile source run job prevManifest) .start
  return (prevManifest, sent.map FileEntry.path, p)

/-- The baseline files that the scanner did not send. -/
def unchangedFiles (prevManifest : Manifest) (changedPaths : List String) :
    List FileEntry :=
  prevManifest.files.filter fun f => f.path ∉ changedPaths

def incrementalManifest (run : Execution) (baselineVersionId : VersionId)
    (prevManifest : Manifest) (changedPaths : List String) (p : Progress) :
    Manifest :=
  let unchanged := unchangedFiles prevManifest changedPaths
  let unchangedRefs := unchanged.flatMap fun prevFile =>
    (prevManifest.chunkRefs.filter fun cr => cr.filePath = prevFile.path).map
      fun cr => { cr with versionId := run.versionId }
  let chunkLocations := (HashMap.toList prevManifest.chunkLocations).foldl
    (fun locations e => HashMap.insertIfNew locations e.1 e.2) p.chunkLocations
  engine.buildManifest run (some baselineVersionId)
    (prevManifest.versionNumber + 1) .incremental (unchanged ++ p.files)
    (unchangedRefs ++ p.chunkRefs) chunkLocations

def runIncrementalBackup (source : Source) (run : Execution) (job : BackupJob)
    (baselineVersionId : VersionId) : EngineM BackupResult := do
  let (prevManifest, changedPaths, p) ←
    engine.collectIncremental source run job baselineVersionId
  engine.commitVersion
    (engine.incrementalManifest run baselineVersionId prevManifest changedPaths p)
  return { backupResult run p run.endedAfter with
    fileCount := p.files.length +
      (unchangedFiles prevManifest changedPaths).length }

/-- The entry that a sent file gets, if it can be opened and cut. -/
def incrementalEntry (source : Source) (job : BackupJob)
    (prevManifest : Manifest) (entry : FileEntry) : Option FileEntry := do
  let content ← source.content entry.path
  let chunks ← (engine.chunker
    (job.chunkingProfile.toChunkStrategy entry.size) content).toOption
  match (baselineFileChunks prevManifest).lookup entry.path with
  | some baselineChunks =>
      return engine.modifiedEntry entry
        (ChunkDiff.ofChunks engine.blake3 baselineChunks chunks)
  | none => return engine.completedEntry entry chunks

end Operations

section Specs

variable {engine : BackupEngine} {s : AgentState}

theorem files_foldl_reuseChunk
    (versionId : VersionId) (prevManifest : Manifest) (path : String)
    (diff : ChunkDiff) (refs : List (ChunkHash × Nat)) :
    ∀ p : Progress,
      (refs.foldl (reuseChunk versionId prevManifest path diff) p).files =
        p.files := by
  induction refs with
  | nil =>
      intro p
      rfl
  | cons ref refs ih =>
      intro p
      rw [List.foldl_cons, ih]
      rfl

/-- A file of the baseline is recorded with its new and its reused chunks. -/
theorem ensures_processModified
    (versionId : VersionId) (job : BackupJob) (prevManifest : Manifest)
    (baselineChunks : List ChunkHash) (p : Progress) (entry : FileEntry)
    (content : Bytes) :
    Ensures (engine.processModified versionId job prevManifest baselineChunks p
        entry content) s
      (fun p' _ => ∃ chunks,
        engine.chunker (job.chunkingProfile.toChunkStrategy entry.size) content =
          .ok chunks ∧
        p'.files = p.files ++ [engine.modifiedEntry entry
          (ChunkDiff.ofChunks engine.blake3 baselineChunks chunks)]) := by
  refine ensures_bind (P := fun diff _ => ∃ chunks,
      engine.chunker (job.chunkingProfile.toChunkStrategy entry.size) content =
        .ok chunks ∧
      diff = ChunkDiff.ofChunks engine.blake3 baselineChunks chunks)
    (ensures_ofResult ?_) ?_
  · intro diff hdiff
    unfold ChunkDiff.compute at hdiff
    cases hchunks : engine.chunker
        (job.chunkingProfile.toChunkStrategy entry.size) content with
    | error e =>
        rw [hchunks] at hdiff
        cases hdiff
    | ok chunks =>
        rw [hchunks] at hdiff
        cases hdiff
        exact ⟨chunks, rfl, rfl⟩
  · rintro diff s₁ ⟨chunks, hchunks, rfl⟩
    refine ensures_bind (ensures_foldlM _
      (fun _ p' _ => p'.files = p.files) rfl ?_) ?_
    · intro done chunk rest p₁ s₂ _ hfiles
      refine ensures_mono (ensures_processChunk versionId entry.path p₁ chunk) ?_
      intro p₂ s₃ hfiles'
      exact hfiles'.trans hfiles
    · intro p' s₂ hfiles
      refine ensures_pure ⟨chunks, hchunks, ?_⟩
      rw [files_foldl_reuseChunk, hfiles]

/-- A sent file adds its entry; one that can be opened has an entry. -/
theorem ensures_incrementalFile
    (source : Source) (run : Execution) (job : BackupJob)
    (prevManifest : Manifest) (p : Progress) (entry : FileEntry) :
    Ensures (engine.incrementalFile source run job prevManifest p entry) s
      (fun p' _ =>
        p'.files = p.files ++
          (engine.incrementalEntry source job prevManifest entry).toList ∧
        ((source.content entry.path).isSome →
          (engine.incrementalEntry source job prevManifest entry).isSome)) := by
  cases hcontent : source.content entry.path with
  | none =>
      simp only [incrementalFile, incrementalEntry, hcontent]
      exact ensures_pure (by simp)
  | some content =>
      cases hbase : (baselineFileChunks prevManifest).lookup entry.path with
      | none =>
          simp only [incrementalFile, hcontent, hbase]
          refine ensures_mono (ensures_processFile _ job p entry content) ?_
          rintro p' s' ⟨chunks, hchunks, hfiles⟩
          simp [incrementalEntry, hcontent, hbase, hchunks, hfiles,
            Except.toOption]
      | some baselineChunks =>
          simp only [incrementalFile, hcontent, hbase]
          refine ensures_mono (ensures_processModified _ job prevManifest
            baselineChunks p entry content) ?_
          rintro p' s' ⟨chunks, hchunks, hfiles⟩
          simp [incrementalEntry, hcontent, hbase, hchunks, hfiles,
            Except.toOption]

/-- What an incremental backup has collected at its commit. -/
theorem ensures_collectIncremental
    (source : Source) (run : Execution) (job : BackupJob)
    (baselineVersionId : VersionId) :
    Ensures (engine.collectIncremental source run job baselineVersionId) s
      (fun (prev, changedPaths, p) _ =>
        let sent := scan source (some (baselineSnapshot baselineVersionId prev))
        changedPaths = sent.map FileEntry.path ∧
        p.files = sent.filterMap (engine.incrementalEntry source job prev) ∧
        ∀ f ∈ sent, (source.content f.path).isSome →
          (engine.incrementalEntry source job prev f).isSome) := by
  refine ensures_bind (P := fun _ _ => True) (fun _ _ _ => trivial) ?_
  intro s₀ s₁ _
  refine ensures_bind (P := fun _ _ => True) (fun _ _ _ => trivial) ?_
  intro prev s₂ _
  refine ensures_bind (ensures_foldlM _
    (fun done p _ =>
      p.files = done.filterMap (engine.incrementalEntry source job prev) ∧
      ∀ f ∈ done, (source.content f.path).isSome →
        (engine.incrementalEntry source job prev f).isSome)
    ⟨rfl, by simp⟩ ?_) ?_
  · rintro done f rest p s₃ _ ⟨hfiles, hopened⟩
    refine ensures_mono (ensures_incrementalFile source run job prev p f) ?_
    rintro p' s₄ ⟨hfiles', hopened'⟩
    refine ⟨?_, ?_⟩
    · rw [hfiles', hfiles, List.filterMap_append]
      cases hentry : engine.incrementalEntry source job prev f with
      | none =>
          simp [hentry]
      | some entry =>
          simp [hentry]
    · intro g hg
      rcases List.mem_append.mp hg with hg | hg
      · exact hopened g hg
      · cases List.mem_singleton.mp hg
        exact hopened'
  · rintro p s₃ ⟨hfiles, hopened⟩
    exact ensures_pure ⟨rfl, hfiles, hopened⟩

/-- An entry keeps the path and the size that the scanner found. -/
theorem path_size_of_incrementalEntry
    {source : Source} {job : BackupJob} {prev : Manifest}
    {f entry : FileEntry}
    (h : engine.incrementalEntry source job prev f = some entry) :
    entry.path = f.path ∧ entry.size = f.size ∧
      (source.content f.path).isSome := by
  unfold incrementalEntry at h
  cases hcontent : source.content f.path with
  | none =>
      simp [hcontent] at h
  | some content =>
      cases hchunks : engine.chunker
          (job.chunkingProfile.toChunkStrategy f.size) content with
      | error e =>
          simp [hcontent, hchunks, Except.toOption] at h
      | ok chunks =>
          cases hbase : (baselineFileChunks prev).lookup f.path with
          | none =>
              simp [hcontent, hchunks, hbase, Except.toOption] at h
              subst h
              exact ⟨rfl, rfl, rfl⟩
          | some baselineChunks =>
              simp [hcontent, hchunks, hbase, Except.toOption] at h
              subst h
              exact ⟨rfl, rfl, rfl⟩

end Specs

end BackupEngine

end Agent
end HyperBackup
