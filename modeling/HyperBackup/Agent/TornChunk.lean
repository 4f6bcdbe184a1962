import HyperBackup.Agent.BackupRestore

/-!
# Crashes in the middle of a chunk

`write_chunk` writes under the final name of the chunk, so a crash may leave
the first bytes of the file there.  The next engine starts with an empty index
and asks the repository whether the chunk exists; the remains are taken for
the chunk.

A sequence consists of runs and of crashes, each by an engine of its own.  No
run changes a chunk file that is there, and every file that is not torn leads
to data of its hash.  Hence a backup can be read back if none of its chunks was
torn before.
-/

namespace HyperBackup
namespace Agent
namespace TornChunk

open Lib Lib.Program LocalRepository BackupEngine Restore BackupRestore

section Crashes

variable (engine : BackupEngine)

/-- Store a chunk as `storeChunk` does, but crash while its file is written: it
has the first bytes only.  The hash is returned if the file is torn. -/
def tearChunk (hash : ChunkHash) (data : Bytes) (kept : Nat) :
    EngineM (Option ChunkHash) := do
  let s ← get
  if (s.index.lookup hash).isSome ∨ chunkExists engine.root s.files hash then
    return none
  else
    let compressed ←
      ofResult (fun e => .failed (.compress e)) (engine.compress data)
    let encrypted ← ofResult (fun e => .failed (.encrypt e))
      (engine.encryptChunk compressed (engine.newChunkId s.chunkIdsDrawn))
    engine.acquireMemory encrypted.ciphertext.length
    let bytes := encodeEncryptedChunk encrypted
    set { s with
      files := Files.write s.files (chunkPath engine.root hash) (bytes.take kept) }
    return if kept < bytes.length then some hash else none

/-- A chunk of a file of the source, and how many bytes of it reach its file. -/
structure CrashPoint (source : Source) (job : BackupJob) where
  before : List FileEntry
  file : FileEntry
  after : List FileEntry
  content : Bytes
  stored : List RawChunkData
  chunk : RawChunkData
  rest : List RawChunkData
  kept : Nat
  scanned : scan source none = before ++ file :: after
  opened : source.content file.path = some content
  cut : engine.chunker (job.chunkingProfile.toChunkStrategy file.size) content =
    .ok (stored ++ chunk :: rest)

variable (source : Source) (run : Execution) (job : BackupJob)
  (point : CrashPoint engine source job)

/-- What a full backup does before it comes to a chunk. -/
def backupUntil : EngineM Unit := do
  let p ← (do
    engine.appendJournal (.taskStarted job.jobId run.executionId run.startedAt)
    point.before.foldlM (engine.backupFile source run job) .start)
  let _ ← point.stored.foldlM
    (engine.processChunk run.versionId point.file.path) p
  return

/-- A full backup that crashes at a chunk. -/
def crashAt : EngineM (Option ChunkHash) := do
  backupUntil engine source run job point
  tearChunk engine (engine.blake3 point.chunk.data) point.chunk.data point.kept

end Crashes

section Sequences

variable (platform : Platform)

/-- A freshly started engine of the platform, and the backup it is to make. -/
structure Attempt where
  engine : BackupEngine
  onPlatform : engine.toPlatform = platform
  source : Source
  execution : Execution
  job : BackupJob
  journal : Option Journal
  appendsLeft : Option Nat

variable {platform}

/-- The engine has an empty index. -/
def Attempt.start (attempt : Attempt platform) (files : Files) : AgentState where
  files := files
  index := ∅
  journal := attempt.journal
  chunkIdsDrawn := 0
  appendsLeft := attempt.appendsLeft

def Attempt.backup (attempt : Attempt platform) : EngineM BackupResult :=
  attempt.engine.runBackup attempt.source attempt.execution attempt.job

/-- The chunks of all files of the source. -/
def Attempt.chunks (attempt : Attempt platform) : List ChunkHash :=
  (attempt.source.found.flatMap
    (fileChunks attempt.engine attempt.source attempt.job)).map
      fun c => attempt.engine.blake3 c.data

theorem Attempt.mem_chunks (attempt : Attempt platform) :
    ∀ f ∈ attempt.source.found,
      ∀ c ∈ fileChunks attempt.engine attempt.source attempt.job f,
        attempt.engine.blake3 c.data ∈ attempt.chunks := by
  intro f hf c hc
  exact List.mem_map.mpr ⟨c, List.mem_flatMap.mpr ⟨f, hf, hc⟩, rfl⟩

variable (platform)

/-- What happens to the repository: a run, however it ends, or a crash. -/
inductive Event
  | run (attempt : Attempt platform)
  | crash (attempt : Attempt platform)
      (point : CrashPoint attempt.engine attempt.source attempt.job)

variable {platform}

def Event.program : Event platform → EngineM (Option ChunkHash)
  | .run attempt => do
      let _ ← attempt.backup
      return none
  | .crash attempt point =>
      crashAt attempt.engine attempt.source attempt.execution attempt.job point

def Event.attempt : Event platform → Attempt platform
  | .run attempt => attempt
  | .crash attempt _ => attempt

/-- The files after an event. -/
def Event.after (files : Files) (event : Event platform) : Files :=
  (stateAfter event.program (event.attempt.start files)).files

/-- The chunk that an event tears. -/
def Event.torn (files : Files) (event : Event platform) : List ChunkHash :=
  match outcome event.program (event.attempt.start files) with
  | .ok (some hash) => [hash]
  | _ => []

def filesAfter (files : Files) (events : List (Event platform)) : Files :=
  events.foldl Event.after files

/-- The chunks that were torn in a sequence. -/
def tornIn (files : Files) : List (Event platform) → List ChunkHash
  | [] => []
  | event :: events =>
      event.torn files ++ tornIn (event.after files) events

end Sequences

/-- What was compressed and encrypted is read back. -/
structure ReadsBack (platform : Platform) : Prop where
  decompress : ∀ data compressed, platform.compress data = .ok compressed →
    platform.decompress compressed = .ok data
  decrypt : ∀ plain chunkId encrypted,
    platform.encryptChunk plain chunkId = .ok encrypted →
      platform.decryptChunk encrypted = .ok plain

section Invariant

/-- The chunk files of the start are kept, every chunk file that is not torn
leads to data of its hash, and the index knows only chunks with a file. -/
structure Sane (engine : BackupEngine) (torn : List ChunkHash) (files : Files)
    (s : AgentState) : Prop where
  kept : ∀ h bytes, files.lookup (chunkPath engine.root h) = some bytes →
    s.files.lookup (chunkPath engine.root h) = some bytes
  trusted : ∀ h, chunkExists engine.root s.files h → h ∉ torn →
    LeadsTo engine.toPlatform Set.univ s.files (chunkLocation h) h
  indexed : ∀ h entry, s.index.lookup h = some entry →
    entry.location = chunkLocation h ∧ chunkExists engine.root s.files h

namespace Sane

variable {engine : BackupEngine} {torn torn' : List ChunkHash} {files : Files}
  {s s' : AgentState}

theorem of_eq (h : Sane engine torn files s) (hfiles : s'.files = s.files)
    (hindex : s'.index = s.index) : Sane engine torn files s' := by
  constructor
  · rw [hfiles]
    exact h.kept
  · rw [hfiles]
    exact h.trusted
  · rw [hfiles, hindex]
    exact h.indexed

theorem mono (h : Sane engine torn files s) (hsub : torn ⊆ torn') :
    Sane engine torn' files s where
  kept := h.kept
  trusted hash hexists hnot := h.trusted hash hexists fun hmem => hnot (hsub hmem)
  indexed := h.indexed

/-- The files of now may be taken for those of the start. -/
theorem restart (h : Sane engine torn files s) : Sane engine torn s.files s where
  kept := fun _ _ hbytes => hbytes
  trusted := h.trusted
  indexed := h.indexed

/-- A chunk of the start is there. -/
theorem stays (h : Sane engine torn files s) {hash : ChunkHash}
    (hexists : chunkExists engine.root files hash) :
    chunkExists engine.root s.files hash := by
  obtain ⟨bytes, hbytes⟩ := Option.isSome_iff_exists.mp hexists
  exact Option.isSome_iff_exists.mpr ⟨bytes, h.kept hash bytes hbytes⟩

theorem registerNew {hash : ChunkHash} (h : Sane engine torn files s)
    (hexists : chunkExists engine.root s.files hash) :
    Sane engine torn files
      { s with index := s.index.registerNew hash (chunkLocation hash) } where
  kept := h.kept
  trusted := h.trusted
  indexed := by
    intro hash' entry hentry
    rw [LocalDedupIndex.lookup_registerNew] at hentry
    split at hentry
    · next heq =>
        cases hentry
        subst heq
        exact ⟨rfl, hexists⟩
    · exact h.indexed hash' entry hentry

/-- A chunk file is added that was not there. -/
theorem write {hash : ChunkHash} {bytes : Bytes}
    (h : Sane engine torn files s)
    (hnew : ¬ chunkExists engine.root s.files hash)
    (hbytes : hash ∉ torn → LeadsTo engine.toPlatform Set.univ
      (Files.write s.files (chunkPath engine.root hash) bytes)
      (chunkLocation hash) hash) :
    Sane engine torn files
      { s with
        files := Files.write s.files (chunkPath engine.root hash) bytes } := by
  have hgrows : Grows engine.root s
      { s with
        files := Files.write s.files (chunkPath engine.root hash) bytes } :=
    grows_write hnew
  constructor
  · intro hash' bytes' hold
    exact hgrows.kept _ _ (h.kept hash' bytes' hold)
  · intro hash' hexists hnot
    by_cases heq : hash' = hash
    · subst heq
      exact hbytes hnot
    · have hpath : chunkPath engine.root hash' ≠ chunkPath engine.root hash :=
        fun hp => heq (chunkPath_injective hp)
      refine (h.trusted hash' ?_ hnot).of_kept fun data => hgrows.kept _ data
      simpa [chunkExists, hpath] using hexists
  · intro hash' entry hentry
    obtain ⟨hlocation, hexists⟩ := h.indexed hash' entry hentry
    exact ⟨hlocation, hgrows.chunkExists hexists⟩

end Sane

section Storing

variable {engine : BackupEngine} {torn : List ChunkHash} {files : Files}
  {s : AgentState}

/-- Writing a new chunk fails and leaves files and index alone, or puts the
chunk into its file and into the index. -/
theorem run_writeNewChunk (hash : ChunkHash) (data : Bytes) :
    (∃ e s', (engine.writeNewChunk hash data).run s = .error e s' ∧
      s'.files = s.files ∧ s'.index = s.index) ∨
    ∃ compressed chunkId encrypted s',
      engine.compress data = .ok compressed ∧
      engine.encryptChunk compressed chunkId = .ok encrypted ∧
      (engine.writeNewChunk hash data).run s =
        .ok (chunkLocation hash, encrypted.ciphertext.length) s' ∧
      s'.files = Files.write s.files (chunkPath engine.root hash)
        (encodeEncryptedChunk encrypted) ∧
      s'.index = s.index.registerNew hash (chunkLocation hash) := by
  cases hcompress : engine.compress data with
  | error e =>
      left
      refine ⟨.failed (.compress e), s, ?_, rfl, rfl⟩
      refine run_bind_of_error ?_
      rw [hcompress]
      rfl
  | ok compressed =>
      have hprepared : (engine.writeNewChunk hash data).run s = _ :=
        (run_bind_of_ok (run_ofResult_eq_ok.mpr ⟨hcompress, rfl⟩)).trans
          ((run_bind_of_ok rfl).trans (run_bind_of_ok rfl))
      cases hencrypt : engine.encryptChunk compressed
          (engine.newChunkId s.chunkIdsDrawn) with
      | error e =>
          left
          refine ⟨.failed (.encrypt e),
            { s with chunkIdsDrawn := s.chunkIdsDrawn + 1 }, ?_, rfl, rfl⟩
          rw [hprepared]
          refine run_bind_of_error ?_
          rw [hencrypt]
          rfl
      | ok encrypted =>
          rw [run_bind_of_ok (run_ofResult_eq_ok.mpr ⟨hencrypt, rfl⟩)] at hprepared
          by_cases hfits : encrypted.ciphertext.length = 0 ∨
              encrypted.ciphertext.length ≤ engine.memoryLimit
          · right
            refine ⟨compressed, _, encrypted,
              { s with
                chunkIdsDrawn := s.chunkIdsDrawn + 1
                files := Files.write s.files (chunkPath engine.root hash)
                  (encodeEncryptedChunk encrypted)
                index := s.index.registerNew hash (chunkLocation hash) },
              rfl, hencrypt, ?_, rfl, rfl⟩
            rw [hprepared, acquireMemory, if_pos hfits]
            rfl
          · left
            refine ⟨.waitsForMemory,
              { s with chunkIdsDrawn := s.chunkIdsDrawn + 1 }, ?_, rfl, rfl⟩
            rw [hprepared, acquireMemory, if_neg hfits]
            rfl

/-- A chunk that was written leads to its data. -/
theorem leadsTo_written (hcodec : ReadsBack engine.toPlatform) {data : Bytes}
    {compressed : Bytes} {chunkId : ChunkId} {encrypted : EncryptedChunk}
    (hcompress : engine.compress data = .ok compressed)
    (hencrypt : engine.encryptChunk compressed chunkId = .ok encrypted) :
    LeadsTo engine.toPlatform Set.univ
      (Files.write s.files (chunkPath engine.root (engine.blake3 data))
        (encodeEncryptedChunk encrypted))
      (chunkLocation (engine.blake3 data)) (engine.blake3 data) :=
  ⟨data, trivial, fetchChunk_of_written (by simp)
    (hcodec.decrypt compressed chunkId encrypted hencrypt)
    (hcodec.decompress data compressed hcompress), rfl⟩

/-- However a chunk is stored, the state stays sane, and a chunk that is stored
has a file at the place that is recorded. -/
theorem keeps_storeChunk (hcodec : ReadsBack engine.toPlatform) (data : Bytes)
    (h : Sane engine torn files s) :
    Keeps (engine.storeChunk (engine.blake3 data) data) s
      (Sane engine torn files)
      (fun r s' => r.1 = chunkLocation (engine.blake3 data) ∧
        chunkExists engine.root s'.files (engine.blake3 data)) := by
  cases hlookup : s.index.lookup (engine.blake3 data) with
  | some entry =>
      exact keeps_of_ok (run_storeChunk_of_known hlookup data) h
        (h.indexed _ entry hlookup)
  | none =>
      refine keeps_bind_of_run rfl ?_
      simp only [hlookup]
      by_cases hexists : chunkExists engine.root s.files (engine.blake3 data)
      · have hfind : findChunk engine.root s.files (engine.blake3 data) =
            .ok (chunkLocation (engine.blake3 data)) :=
          if_pos hexists
        simp only [if_pos hexists]
        refine keeps_bind_of_run (run_ofResult_eq_ok.mpr ⟨hfind, rfl⟩) ?_
        refine keeps_bind_of_run rfl (keeps_pure (h.registerNew hexists) ?_)
        exact ⟨rfl, hexists⟩
      · simp only [if_neg hexists]
        rcases @run_writeNewChunk engine s (engine.blake3 data) data with
          ⟨e, s', hrun, hfiles, hindex⟩ |
          ⟨compressed, chunkId, encrypted, s', hcompress, hencrypt, hrun, hfiles,
            hindex⟩
        · exact keeps_of_error hrun (h.of_eq hfiles hindex)
        · have hwritten := h.write hexists fun _ =>
            leadsTo_written hcodec hcompress hencrypt
          have hthere : chunkExists engine.root
              (Files.write s.files (chunkPath engine.root (engine.blake3 data))
                (encodeEncryptedChunk encrypted)) (engine.blake3 data) := by
            simp [chunkExists]
          refine keeps_of_ok hrun ((hwritten.registerNew hthere).of_eq hfiles hindex)
            ⟨rfl, ?_⟩
          rw [hfiles]
          exact hthere

end Storing

section Backup

variable {engine : BackupEngine} {torn allowed : List ChunkHash} {files : Files}
  {s s' : AgentState} {p : Progress}

/-- What a backup lists: allowed chunks, with their places, that have a file. -/
structure Lists (engine : BackupEngine) (allowed : List ChunkHash) (p : Progress)
    (s : AgentState) : Prop where
  refs : ∀ ref ∈ p.chunkRefs, ref.hash ∈ allowed ∧
    p.chunkLocations.lookup ref.hash.toHex = some (chunkLocation ref.hash) ∧
      chunkExists engine.root s.files ref.hash
  files : ∀ f ∈ p.files, ∀ h ∈ f.chunks, ∃ ref ∈ p.chunkRefs, ref.hash = h

theorem Lists.of_kept (h : Lists engine allowed p s)
    (hkept : ∀ hash, chunkExists engine.root s.files hash →
      chunkExists engine.root s'.files hash) :
    Lists engine allowed p s' where
  refs ref href :=
    ⟨(h.refs ref href).1, (h.refs ref href).2.1, hkept _ (h.refs ref href).2.2⟩
  files := h.files

/-- Storing a chunk removes none. -/
theorem keeps_chunkExists_storeChunk (hcodec : ReadsBack engine.toPlatform)
    (data : Bytes) (h : Sane engine torn files s) :
    Keeps (engine.storeChunk (engine.blake3 data) data) s
      (Sane engine torn files)
      (fun r s' => r.1 = chunkLocation (engine.blake3 data) ∧
        chunkExists engine.root s'.files (engine.blake3 data) ∧
        ∀ hash, chunkExists engine.root s.files hash →
          chunkExists engine.root s'.files hash) := by
  cases hrun : (engine.storeChunk (engine.blake3 data) data).run s with
  | ok r s' =>
      obtain ⟨hsane, hlocation, hexists⟩ := (keeps_storeChunk hcodec data h).of_run hrun
      obtain ⟨hkept, _⟩ := (keeps_storeChunk hcodec data h.restart).of_run hrun
      exact keeps_of_ok hrun hsane ⟨hlocation, hexists, fun hash => hkept.stays⟩
  | error e s' =>
      have hsane := (keeps_storeChunk hcodec data h).stateAfter
      rw [stateAfter, hrun] at hsane
      exact keeps_of_error hrun hsane

/-- A chunk is recorded after it was stored. -/
theorem keeps_processChunk (hcodec : ReadsBack engine.toPlatform)
    (versionId : VersionId) (path : String) {chunk : RawChunkData}
    (hchunk : engine.blake3 chunk.data ∈ allowed)
    (h : Sane engine torn files s) (hlists : Lists engine allowed p s) :
    Keeps (engine.processChunk versionId path p chunk) s
      (Sane engine torn files)
      (fun p' s' => Lists engine allowed p' s' ∧
        p'.chunkRefs = p.chunkRefs ++ [chunkRef engine versionId path chunk]) := by
  refine keeps_bind (keeps_chunkExists_storeChunk hcodec chunk.data h) ?_
  rintro ⟨location, stored⟩ s' hsane ⟨rfl, hexists, hkept⟩
  refine keeps_pure hsane ⟨⟨?_, ?_⟩, rfl⟩
  · intro ref href
    rcases List.mem_append.mp href with hold | hnew
    · obtain ⟨hallowed, hplace, hthere⟩ := hlists.refs ref hold
      refine ⟨hallowed, ?_, hkept _ hthere⟩
      by_cases heq : ref.hash = engine.blake3 chunk.data
      · rw [heq]
        exact AList.lookup_insert _
      · exact (AList.lookup_insert_ne
          fun htext => heq (ChunkHash.toHex_injective htext)).trans hplace
    · cases List.mem_singleton.mp hnew
      exact ⟨hchunk, AList.lookup_insert _, hexists⟩
  · intro f hf hash hhash
    obtain ⟨ref, href, heq⟩ := hlists.files f hf hash hhash
    exact ⟨ref, List.mem_append_left _ href, heq⟩

/-- Several chunks in a row. -/
theorem keeps_processChunks (hcodec : ReadsBack engine.toPlatform)
    (versionId : VersionId) (path : String) {chunks : List RawChunkData}
    (hchunks : ∀ c ∈ chunks, engine.blake3 c.data ∈ allowed)
    (h : Sane engine torn files s) (hlists : Lists engine allowed p s) :
    Keeps (chunks.foldlM (engine.processChunk versionId path) p) s
      (Sane engine torn files)
      (fun p' s' => Lists engine allowed p' s' ∧
        p'.chunkRefs = p.chunkRefs ++ chunks.map (chunkRef engine versionId path)) := by
  refine keeps_foldlM chunks
    (fun done p' s' => Lists engine allowed p' s' ∧
      p'.chunkRefs = p.chunkRefs ++ done.map (chunkRef engine versionId path))
    h ⟨hlists, by simp⟩ ?_
  rintro done c rest p₁ s₁ hsplit hsane ⟨hlists₁, hrefs⟩
  have hc : engine.blake3 c.data ∈ allowed := hchunks c (by simp [hsplit])
  refine keeps_mono (keeps_processChunk hcodec versionId path hc hsane hlists₁) ?_
  rintro p₂ s₂ _ ⟨hlists₂, hrefs₂⟩
  refine ⟨hlists₂, ?_⟩
  rw [hrefs₂, hrefs, List.map_append, List.append_assoc]
  rfl

/-- Journalling touches only the journal, also when it is the last step. -/
theorem keeps_appendJournal (entry : JournalEntry)
    (h : Sane engine torn files s) :
    Keeps (engine.appendJournal entry) s (Sane engine torn files)
      (fun _ s' => s'.files = s.files) := by
  obtain ⟨files', index, journal, chunkIdsDrawn, appendsLeft⟩ := s
  cases journal with
  | none =>
      exact ⟨h, rfl⟩
  | some journal =>
      rcases appendsLeft with _ | _ | n
      · exact ⟨h.of_eq rfl rfl, rfl⟩
      · exact h.of_eq rfl rfl
      · exact ⟨h.of_eq rfl rfl, rfl⟩

theorem Lists.of_files_eq (h : Lists engine allowed p s)
    (hfiles : s'.files = s.files) : Lists engine allowed p s' :=
  h.of_kept fun hash hexists => by rw [hfiles]; exact hexists

theorem keeps_processFile (hcodec : ReadsBack engine.toPlatform)
    (versionId : VersionId) (job : BackupJob) (f : FileEntry) (content : Bytes)
    (hchunks : ∀ chunks,
      engine.chunker (job.chunkingProfile.toChunkStrategy f.size) content =
        .ok chunks → ∀ c ∈ chunks, engine.blake3 c.data ∈ allowed)
    (h : Sane engine torn files s) (hlists : Lists engine allowed p s) :
    Keeps (engine.processFile versionId job p f content) s
      (Sane engine torn files) (Lists engine allowed) := by
  refine keeps_ofResult_bind h fun chunks hcut => ?_
  refine keeps_bind (keeps_processChunks hcodec versionId f.path
    (hchunks chunks hcut) h hlists) ?_
  rintro p' s' hsane ⟨hlists', hrefs⟩
  refine keeps_pure hsane ⟨hlists'.refs, ?_⟩
  intro g hg hash hhash
  rcases List.mem_append.mp hg with hold | hnew
  · exact hlists'.files g hold hash hhash
  · cases List.mem_singleton.mp hnew
    obtain ⟨c, hc, rfl⟩ := List.mem_map.mp hhash
    refine ⟨chunkRef engine versionId f.path c, ?_, rfl⟩
    change chunkRef engine versionId f.path c ∈ p'.chunkRefs
    rw [hrefs]
    exact List.mem_append_right _ (List.mem_map.mpr ⟨c, hc, rfl⟩)

theorem keeps_backupFile (hcodec : ReadsBack engine.toPlatform) (source : Source)
    (run : Execution) (job : BackupJob) (f : FileEntry)
    (hchunks : ∀ c ∈ fileChunks engine source job f,
      engine.blake3 c.data ∈ allowed)
    (h : Sane engine torn files s) (hlists : Lists engine allowed p s) :
    Keeps (engine.backupFile source run job p f) s
      (Sane engine torn files) (Lists engine allowed) := by
  cases hcontent : source.content f.path with
  | none =>
      simp only [backupFile, hcontent]
      exact keeps_pure h ⟨hlists.refs, hlists.files⟩
  | some content =>
      have hallowed : ∀ chunks,
          engine.chunker (job.chunkingProfile.toChunkStrategy f.size) content =
            .ok chunks → ∀ c ∈ chunks, engine.blake3 c.data ∈ allowed := by
        intro chunks hcut c hc
        refine hchunks c ?_
        simp only [fileChunks, hcontent, hcut]
        exact hc
      simp only [backupFile, hcontent]
      refine keeps_bind (keeps_processFile hcodec run.versionId job f content
        hallowed h hlists) ?_
      intro p' s' hsane hlists'
      refine keeps_bind (P := fun _ s'' => s''.files = s'.files) ?_ ?_
      · unfold journalProcessed
        cases p'.files.getLast? with
        | none =>
            exact keeps_pure hsane rfl
        | some entry =>
            exact keeps_appendJournal _ hsane
      · intro _ s'' hsane'' hfiles
        exact keeps_pure hsane'' (hlists'.of_files_eq hfiles)

/-- The files of a backup, or those before a crash. -/
theorem keeps_backupFiles (hcodec : ReadsBack engine.toPlatform) (source : Source)
    (run : Execution) (job : BackupJob) {entries : List FileEntry}
    (hchunks : ∀ f ∈ entries, ∀ c ∈ fileChunks engine source job f,
      engine.blake3 c.data ∈ allowed)
    (h : Sane engine torn files s) :
    Keeps (do
        engine.appendJournal (.taskStarted job.jobId run.executionId run.startedAt)
        entries.foldlM (engine.backupFile source run job) .start) s
      (Sane engine torn files) (Lists engine allowed) := by
  refine keeps_bind (keeps_appendJournal _ h) ?_
  intro _ s₁ hsane _
  refine keeps_foldlM entries (fun _ => Lists engine allowed) hsane ⟨nofun, nofun⟩ ?_
  intro done f rest p s hsplit hsane hlists
  exact keeps_backupFile hcodec source run job f
    (hchunks f (by simp [hsplit])) hsane hlists

/-- The commit leaves the chunk files alone. -/
theorem sane_commitVersion (manifest : Manifest) (h : Sane engine torn files s) :
    Sane engine torn files
      { s with
        index := s.index.addReferences manifest.chunkRefs
        files := writeManifest engine.root engine.json manifest.versionId manifest
          s.files } := by
  have hchunk : ∀ hash,
      (writeManifest engine.root engine.json manifest.versionId manifest
        s.files).lookup (chunkPath engine.root hash) =
          s.files.lookup (chunkPath engine.root hash) := fun hash =>
    lookup_writeManifest_of_ne (manifestPath_ne_chunkPath _ hash).symm
      (stagingPath_ne_chunkPath _ hash).symm
  constructor
  · intro hash bytes hbytes
    exact (hchunk hash).trans (h.kept hash bytes hbytes)
  · intro hash hexists hnot
    rw [chunkExists_writeManifest] at hexists
    exact (h.trusted hash hexists hnot).of_kept fun data hdata =>
      (hchunk hash).trans hdata
  · intro hash entry hentry
    obtain ⟨entry', hentry', hlocation⟩ :=
      location_of_lookup_addReferences hentry
    rw [chunkExists_writeManifest, ← hlocation]
    exact h.indexed hash entry' hentry'

/-- A run keeps the state sane, and one that succeeds leaves the manifest of
what it lists. -/
theorem keeps_runBackup (hcodec : ReadsBack engine.toPlatform) (source : Source)
    (run : Execution) (job : BackupJob)
    (hchunks : ∀ f ∈ source.found, ∀ c ∈ fileChunks engine source job f,
      engine.blake3 c.data ∈ allowed)
    (h : Sane engine torn files s) :
    Keeps (engine.runBackup source run job) s (Sane engine torn files)
      (fun _ s' => ∃ p, Lists engine allowed p s' ∧
        s'.files.lookup (manifestPath engine.root run.versionId) =
          some (engine.json.toVec (engine.fullManifest run p))) := by
  refine keeps_bind (keeps_backupFiles hcodec source run job hchunks h) ?_
  intro p s₁ hsane hlists
  refine keeps_bind_of_run rfl ?_
  refine keeps_bind (keeps_appendJournal _
    (sane_commitVersion (engine.fullManifest run p) hsane)) ?_
  intro _ s₂ hsane₂ hfiles
  refine keeps_pure hsane₂ ⟨p, ?_, ?_⟩
  · refine hlists.of_kept fun hash hexists => ?_
    rw [hfiles]
    exact (chunkExists_writeManifest hash).trans hexists
  · rw [hfiles]
    exact lookup_writeManifest_self

end Backup

section Events

variable {engine : BackupEngine} {torn : List ChunkHash} {files : Files}
  {s : AgentState}

/-- A crash at a chunk that is there or cannot be encrypted leaves no trace;
elsewhere the first bytes of the chunk are in its file. -/
theorem run_tearChunk (hash : ChunkHash) (data : Bytes) (kept : Nat) :
    (∃ e, (tearChunk engine hash data kept).run s = .error e s) ∨
    (tearChunk engine hash data kept).run s = .ok none s ∨
    ∃ compressed chunkId encrypted,
      ¬ chunkExists engine.root s.files hash ∧
      engine.compress data = .ok compressed ∧
      engine.encryptChunk compressed chunkId = .ok encrypted ∧
      (tearChunk engine hash data kept).run s =
        .ok (if kept < (encodeEncryptedChunk encrypted).length then some hash
            else none)
          { s with
            files := Files.write s.files (chunkPath engine.root hash)
              ((encodeEncryptedChunk encrypted).take kept) } := by
  have hget : (tearChunk engine hash data kept).run s = _ := run_bind_of_ok rfl
  by_cases hthere : (s.index.lookup hash).isSome ∨
      chunkExists engine.root s.files hash
  · refine Or.inr (Or.inl ?_)
    rw [hget, if_pos hthere]
    rfl
  · rw [if_neg hthere] at hget
    cases hcompress : engine.compress data with
    | error e =>
        refine Or.inl ⟨.failed (.compress e), ?_⟩
        rw [hget]
        refine run_bind_of_error ?_
        rw [hcompress]
        rfl
    | ok compressed =>
        rw [run_bind_of_ok (run_ofResult_eq_ok.mpr ⟨hcompress, rfl⟩)] at hget
        cases hencrypt : engine.encryptChunk compressed
            (engine.newChunkId s.chunkIdsDrawn) with
        | error e =>
            refine Or.inl ⟨.failed (.encrypt e), ?_⟩
            rw [hget]
            refine run_bind_of_error ?_
            rw [hencrypt]
            rfl
        | ok encrypted =>
            rw [run_bind_of_ok (run_ofResult_eq_ok.mpr ⟨hencrypt, rfl⟩)] at hget
            by_cases hfits : encrypted.ciphertext.length = 0 ∨
                encrypted.ciphertext.length ≤ engine.memoryLimit
            · refine Or.inr (Or.inr ⟨compressed, _, encrypted,
                fun hexists => hthere (Or.inr hexists), rfl, hencrypt, ?_⟩)
              rw [hget, acquireMemory, if_pos hfits]
              rfl
            · refine Or.inl ⟨.waitsForMemory, ?_⟩
              rw [hget, acquireMemory, if_neg hfits]
              rfl

/-- A crash in the middle of a chunk leaves everything sane but that chunk. -/
theorem sane_tearChunk (hcodec : ReadsBack engine.toPlatform) (data : Bytes)
    (kept : Nat) (h : Sane engine torn files s) :
    match (tearChunk engine (engine.blake3 data) data kept).run s with
    | .ok r s' => Sane engine (r.toList ++ torn) files s'
    | .error _ s' => Sane engine torn files s' := by
  rcases @run_tearChunk engine s (engine.blake3 data) data kept with
    ⟨e, hrun⟩ | hrun |
      ⟨compressed, chunkId, encrypted, hnew, hcompress, hencrypt, hrun⟩
  · rw [hrun]
    exact h
  · rw [hrun]
    exact h
  · rw [hrun]
    by_cases hcut : kept < (encodeEncryptedChunk encrypted).length
    · rw [if_pos hcut]
      refine (h.mono (List.subset_append_right _ _)).write hnew fun hnot => ?_
      exact absurd List.mem_cons_self hnot
    · rw [if_neg hcut, List.take_of_length_le (Nat.le_of_not_lt hcut)]
      exact h.write hnew fun _ => leadsTo_written hcodec hcompress hencrypt

/-- What precedes a crash keeps the state sane. -/
theorem sane_backupUntil (hcodec : ReadsBack engine.toPlatform) (source : Source)
    (run : Execution) (job : BackupJob) (point : CrashPoint engine source job)
    (h : Sane engine torn files s) :
    Keeps (backupUntil engine source run job point) s (Sane engine torn files)
      (fun _ _ => True) := by
  have hbefore : ∀ f ∈ point.before, ∀ c ∈ fileChunks engine source job f,
      engine.blake3 c.data ∈ (point.before.flatMap (fileChunks engine source job) ++
        point.stored).map fun c => engine.blake3 c.data := by
    intro f hf c hc
    exact List.mem_map.mpr ⟨c, List.mem_append_left _
      (List.mem_flatMap.mpr ⟨f, hf, hc⟩), rfl⟩
  have hstored : ∀ c ∈ point.stored, engine.blake3 c.data ∈
      (point.before.flatMap (fileChunks engine source job) ++
        point.stored).map fun c => engine.blake3 c.data := by
    intro c hc
    exact List.mem_map.mpr ⟨c, List.mem_append_right _ hc, rfl⟩
  refine keeps_bind (keeps_backupFiles hcodec source run job hbefore h) ?_
  intro p s₁ hsane hlists
  refine keeps_bind (keeps_processChunks hcodec run.versionId point.file.path
    hstored hsane hlists) ?_
  intro _ s₂ hsane₂ _
  exact keeps_pure hsane₂ trivial

variable {platform : Platform}

/-- Every chunk file that is not torn leads to data of its hash. -/
def Trusted (platform : Platform) (torn : List ChunkHash) (files : Files) : Prop :=
  ∀ h, chunkExists platform.root files h → h ∉ torn →
    LeadsTo platform Set.univ files (chunkLocation h) h

/-- No chunk file has changed. -/
def ChunksKept (platform : Platform) (files files' : Files) : Prop :=
  ∀ h bytes, files.lookup (chunkPath platform.root h) = some bytes →
    files'.lookup (chunkPath platform.root h) = some bytes

/-- A fresh engine starts sane. -/
theorem sane_start {attempt : Attempt platform}
    (h : Trusted attempt.engine.toPlatform torn files) :
    Sane attempt.engine torn files (attempt.start files) where
  kept := fun _ _ hbytes => hbytes
  trusted := h
  indexed := nofun

/-- An event leaves everything sane but the chunk that it tears. -/
theorem Event.sane (hcodec : ReadsBack platform) (event : Event platform)
    (h : Trusted platform torn files) :
    Sane event.attempt.engine (event.torn files ++ torn) files
      (stateAfter event.program (event.attempt.start files)) := by
  cases event with
  | run attempt =>
      rw [← attempt.onPlatform] at hcodec h
      have hkeeps : Keeps (Event.run attempt).program (attempt.start files)
          (Sane attempt.engine torn files) (fun _ _ => True) := by
        refine keeps_bind (keeps_runBackup hcodec _ _ _ attempt.mem_chunks
          (sane_start h)) ?_
        intro _ s' hsane _
        exact keeps_pure hsane trivial
      exact hkeeps.stateAfter.mono (List.subset_append_right _ _)
  | crash attempt point =>
      rw [← attempt.onPlatform] at hcodec h
      have huntil := sane_backupUntil hcodec attempt.source attempt.execution
        attempt.job point (sane_start h)
      cases hrun : (backupUntil attempt.engine attempt.source attempt.execution
          attempt.job point).run (attempt.start files) with
      | error e s' =>
          have hend : stateAfter (Event.crash attempt point).program
              (attempt.start files) = s' := stateAfter_bind_of_error hrun
          have hsane := huntil.stateAfter
          rw [stateAfter, hrun] at hsane
          exact (hend ▸ hsane).mono (List.subset_append_right _ _)
      | ok u s' =>
          have hend : (Event.crash attempt point).program.run
              (attempt.start files) =
                (tearChunk attempt.engine (attempt.engine.blake3 point.chunk.data)
                  point.chunk.data point.kept).run s' := run_bind_of_ok hrun
          have htear := sane_tearChunk hcodec point.chunk.data point.kept
            (huntil.of_run hrun).1
          unfold Event.torn outcome stateAfter
          simp only [Event.attempt, hend]
          cases htorn : (tearChunk attempt.engine
              (attempt.engine.blake3 point.chunk.data) point.chunk.data
              point.kept).run s' with
          | error e s'' =>
              rw [htorn] at htear
              exact htear
          | ok r s'' =>
              rw [htorn] at htear
              cases r with
              | none =>
                  exact htear
              | some hash =>
                  exact htear

/-- An event keeps the chunk files, and those it does not tear can be trusted. -/
theorem Event.trusted_after (hcodec : ReadsBack platform) (event : Event platform)
    (h : Trusted platform torn files) :
    Trusted platform (event.torn files ++ torn) (event.after files) ∧
      ChunksKept platform files (event.after files) := by
  have hsane := event.sane hcodec h
  have htrusted := hsane.trusted
  have hkept := hsane.kept
  rw [event.attempt.onPlatform] at htrusted hkept
  exact ⟨htrusted, hkept⟩

/-- Over a whole sequence. -/
theorem trusted_filesAfter (hcodec : ReadsBack platform)
    (events : List (Event platform)) : ∀ {files torn}, Trusted platform torn files →
      Trusted platform (tornIn files events ++ torn) (filesAfter files events) ∧
        ChunksKept platform files (filesAfter files events) := by
  induction events with
  | nil =>
      intro files torn h
      exact ⟨h, fun _ _ hbytes => hbytes⟩
  | cons event events ih =>
      intro files torn h
      obtain ⟨hnext, hkept⟩ := event.trusted_after hcodec h
      obtain ⟨hall, hkept'⟩ := ih hnext
      refine ⟨fun hash hexists hnot => hall hash hexists fun hmem => hnot ?_,
        fun hash bytes hbytes => hkept' hash bytes (hkept hash bytes hbytes)⟩
      simp only [tornIn, List.mem_append] at hmem ⊢
      tauto

end Events

end Invariant

section Sequence

variable {platform : Platform}

/-- The chunks that a manifest lists. -/
def listedChunks (m : Manifest) : List ChunkHash :=
  m.files.flatMap FileEntry.chunks ++ m.chunkRefs.map ChunkReference.hash

/-- Every chunk of the manifest decodes, decrypts and decompresses to data of
its hash, at the place that the manifest gives. -/
def AllReadable (platform : Platform) (files : Files) (m : Manifest) : Prop :=
  ∀ h ∈ listedChunks m,
    m.chunkLocations.lookup h.toHex = some (chunkLocation h) ∧
      LeadsTo platform Set.univ files (chunkLocation h) h

theorem AllReadable.of_kept {files files' : Files} {m : Manifest}
    (h : AllReadable platform files m) (hkept : ChunksKept platform files files') :
    AllReadable platform files' m :=
  fun hash hmem =>
    ⟨(h hash hmem).1, (h hash hmem).2.of_kept fun data => hkept hash data⟩

/-- What a backup lists can be read as long as nothing of it is torn. -/
theorem Lists.allReadable {engine : BackupEngine} {allowed torn : List ChunkHash}
    {p : Progress} {s : AgentState} {run : Execution} {files : Files}
    (hlists : Lists engine allowed p s)
    (hsane : Sane engine torn files s) (hallowed : ∀ h ∈ allowed, h ∉ torn) :
    AllReadable engine.toPlatform s.files (engine.fullManifest run p) := by
  have hlisted : ∀ ref ∈ p.chunkRefs,
      p.chunkLocations.lookup ref.hash.toHex = some (chunkLocation ref.hash) ∧
        LeadsTo engine.toPlatform Set.univ s.files (chunkLocation ref.hash)
          ref.hash := by
    intro ref href
    obtain ⟨hmem, hplace, hexists⟩ := hlists.refs ref href
    exact ⟨hplace, hsane.trusted _ hexists (hallowed _ hmem)⟩
  intro h hh
  rcases List.mem_append.mp hh with hfile | hrefs
  · obtain ⟨f, hf, hchunk⟩ := List.mem_flatMap.mp hfile
    obtain ⟨ref, href, rfl⟩ := hlists.files f hf h hchunk
    exact hlisted ref href
  · obtain ⟨ref, href, rfl⟩ := List.mem_map.mp hrefs
    exact hlisted ref href

/-- In every sequence of runs and crashes, a backup that succeeds and has no
chunk that was torn before leaves a manifest whose chunks can all be read, then
and after everything that follows. -/
theorem allReadable_of_not_torn (platform : Platform) (files : Files)
    (earlier later : List (Event platform)) (attempt : Attempt platform)
    (result : BackupResult) (s' : AgentState)
    (hcodec : ReadsBack platform) (hstart : Trusted platform [] files)
    (hrun : attempt.backup.run (attempt.start (filesAfter files earlier)) =
      .ok result s')
    (hclean : ∀ h ∈ attempt.chunks, h ∉ tornIn files earlier) :
    ∃ m, s'.files.lookup
        (manifestPath platform.root attempt.execution.versionId) =
          some (platform.json.toVec m) ∧
      AllReadable platform (filesAfter s'.files later) m := by
  obtain ⟨htrusted, _⟩ := trusted_filesAfter hcodec earlier hstart
  have hcodec' : ReadsBack attempt.engine.toPlatform := by
    rw [attempt.onPlatform]
    exact hcodec
  have hbefore : Trusted attempt.engine.toPlatform (tornIn files earlier ++ [])
      (filesAfter files earlier) := by
    rw [attempt.onPlatform]
    exact htrusted
  obtain ⟨hsane, p, hlists, hmanifest⟩ := (keeps_runBackup hcodec' attempt.source
    attempt.execution attempt.job attempt.mem_chunks (sane_start hbefore)).of_run
      hrun
  rw [List.append_nil] at hsane
  have hreadable : AllReadable attempt.engine.toPlatform s'.files
      (attempt.engine.fullManifest attempt.execution p) :=
    hlists.allReadable hsane hclean
  have hafter : Trusted attempt.engine.toPlatform (tornIn files earlier) s'.files :=
    hsane.trusted
  rw [attempt.onPlatform] at hmanifest hreadable hafter
  obtain ⟨_, hkept⟩ := trusted_filesAfter hcodec later hafter
  exact ⟨_, hmanifest, hreadable.of_kept hkept⟩

end Sequence

section Example

/-- The backup of one file with the content `abc`. -/
def abcAttempt : Attempt (examplePlatform blankManifest) where
  engine := exampleEngine (examplePlatform blankManifest)
  onPlatform := rfl
  source := abcSource ["/data/a"]
  execution := exampleExecution 4
  job := exampleJob
  journal := none
  appendsLeft := none

theorem readsBack_examplePlatform (m : Manifest) :
    ReadsBack (examplePlatform m) where
  decompress data compressed hcompress := by
    obtain ⟨compressed', hcompress', hdecompress⟩ :=
      (lawfulCodec_examplePlatform m).compress data
    rw [hcompress] at hcompress'
    cases hcompress'
    exact hdecompress
  decrypt plain chunkId encrypted hencrypt := by
    obtain ⟨encrypted', hencrypt', hdecrypt⟩ :=
      (lawfulCodec_examplePlatform m).encrypt plain chunkId
    rw [hencrypt] at hencrypt'
    cases hencrypt'
    exact hdecrypt

theorem trusted_empty (platform : Platform) : Trusted platform [] ∅ := by
  intro h hexists
  cases hexists

/-- The platform of the examples. -/
abbrev abcPlatform : Platform :=
  examplePlatform blankManifest

/-- The engine crashes when one byte of the only chunk is in its file. -/
def abcCrash : CrashPoint abcAttempt.engine abcAttempt.source abcAttempt.job where
  before := []
  file := exampleFile "/data/a" 3
  after := []
  content := abc
  stored := []
  chunk := { offset := 0, data := abc }
  rest := []
  kept := 1
  scanned := rfl
  opened := rfl
  cut := rfl

/-- One byte is left of the chunk. -/
theorem after_abcCrash :
    (Event.crash abcAttempt abcCrash).after ∅ =
      Files.write ∅ (chunkPath "/repo" abcHash)
        ((encodeEncryptedChunk abcEncrypted).take 1) := by
  rfl

/-- A file of one byte is no chunk. -/
theorem not_leadsTo_abcHash {platform : Platform} {files : Files}
    (hlookup : files.lookup (chunkPath platform.root abcHash) =
      some ((encodeEncryptedChunk abcEncrypted).take 1)) :
    ¬ LeadsTo platform Set.univ files (chunkLocation abcHash) abcHash := by
  rintro ⟨data, _, hfetch, _⟩
  have hpath : files.lookup (locationPath platform.root (chunkLocation abcHash)) =
      some ((encodeEncryptedChunk abcEncrypted).take 1) := hlookup
  simp only [fetchChunk, readChunk, readFile, hpath] at hfetch
  cases hfetch

section Trust

variable {engine : BackupEngine} {files : Files} {s : AgentState}

/-- A chunk that has a file is taken as it is. -/
theorem run_storeChunk_of_present {hash : ChunkHash} (data : Bytes)
    (hnone : s.index.lookup hash = none)
    (hexists : chunkExists engine.root s.files hash) :
    (engine.storeChunk hash data).run s =
      .ok (chunkLocation hash, 0)
        { s with index := s.index.registerNew hash (chunkLocation hash) } := by
  have hfind : findChunk engine.root s.files hash = .ok (chunkLocation hash) :=
    if_pos hexists
  have hget : (engine.storeChunk hash data).run s = _ := run_bind_of_ok rfl
  simp only [hnone, if_pos hexists] at hget
  rw [hget, run_bind_of_ok (run_ofResult_eq_ok.mpr ⟨hfind, rfl⟩)]
  rfl

/-- A chunk without a file is written if it can be. -/
theorem run_storeChunk_of_absent {hash : ChunkHash} (data : Bytes)
    (hnone : s.index.lookup hash = none)
    (hexists : ¬ chunkExists engine.root s.files hash) :
    (engine.storeChunk hash data).run s = (engine.writeNewChunk hash data).run s := by
  have hget : (engine.storeChunk hash data).run s = _ := run_bind_of_ok rfl
  simp only [hnone, if_neg hexists] at hget
  exact hget

/-- Without a journal a commit writes the manifest and returns. -/
theorem run_completeBackup_of_no_journal (run : Execution) (job : BackupJob)
    (p : Progress) (hjournal : s.journal = none) :
    (engine.completeBackup run job p).run s =
      .ok (backupResult run p run.endedAfter)
        { s with
          index := s.index.addReferences (engine.fullManifest run p).chunkRefs
          files := writeManifest engine.root engine.json run.versionId
            (engine.fullManifest run p) s.files } := by
  obtain ⟨files, index, journal, chunkIdsDrawn, appendsLeft⟩ := s
  cases hjournal
  rfl

end Trust

section OneFile

variable {platform : Platform} {files : Files}

/-- What the backup of the file collects when that many bytes of its chunk are
written. -/
def abcProgress (platform : Platform) (stored : Nat) : Progress where
  files := [(exampleEngine platform).completedEntry (exampleFile "/data/a" 3)
    [{ offset := 0, data := abc }]]
  chunkRefs := [chunkRef (exampleEngine platform) ⟨exampleUuid 4⟩ "/data/a"
    { offset := 0, data := abc }]
  chunkLocations := AList.insert (platform.blake3 abc).toHex
    (chunkLocation (platform.blake3 abc)) ∅
  dataProcessed := 3
  dataStored := Progress.start.dataStored + stored
  chunkCount := 1
  fileCount := 1
  skippedFiles := []

/-- An engine that knows nothing. -/
def abcStart (files : Files) : AgentState :=
  { emptyMachine with files := files }

theorem run_collectFull_abc {stored : Nat} {s : AgentState}
    (hstore : ((exampleEngine platform).storeChunk (platform.blake3 abc) abc).run
      (abcStart files) = .ok (chunkLocation (platform.blake3 abc), stored) s)
    (hjournal : s.journal = none) :
    ((exampleEngine platform).collectFull (abcSource ["/data/a"]) (exampleExecution 4)
      exampleJob).run (abcStart files) = .ok (abcProgress platform stored) s := by
  have hchunk : ((exampleEngine platform).processChunk ⟨exampleUuid 4⟩ "/data/a" .start
      { offset := 0, data := abc }).run (abcStart files) = _ :=
    run_bind_of_ok hstore
  have hfile : ((exampleEngine platform).backupFile (abcSource ["/data/a"])
      (exampleExecution 4) exampleJob .start (exampleFile "/data/a" 3)).run
        (abcStart files) = .ok (abcProgress platform stored) s := by
    have hprocessed : ((exampleEngine platform).journalProcessed exampleJob
        (abcProgress platform stored)).run s = .ok () s := by
      obtain ⟨files, index, journal, chunkIdsDrawn, appendsLeft⟩ := s
      cases hjournal
      rfl
    refine run_bind_eq_ok.mpr ⟨abcProgress platform stored, s, ?_,
      run_bind_of_ok hprocessed⟩
    refine run_bind_eq_ok.mpr
      ⟨[{ offset := 0, data := abc }], abcStart files, rfl, ?_⟩
    have hchunks : ([{ offset := 0, data := abc }].foldlM
        ((exampleEngine platform).processChunk ⟨exampleUuid 4⟩ "/data/a") .start).run
          (abcStart files) = _ :=
      run_bind_of_ok hchunk
    exact run_bind_of_ok hchunks
  have hscan : scan (abcSource ["/data/a"]) none = [exampleFile "/data/a" 3] := by
    rfl
  refine run_bind_eq_ok.mpr ⟨(), abcStart files, rfl, ?_⟩
  rw [hscan, List.foldlM_cons]
  exact run_bind_eq_ok.mpr ⟨abcProgress platform stored, s, hfile, rfl⟩

/-- The engine knows the chunk. -/
def abcKnown (files : Files) : AgentState :=
  { abcStart files with
    index := LocalDedupIndex.registerNew ∅ abcHash (chunkLocation abcHash) }

end OneFile

/-- The next engine takes the byte for the chunk and succeeds; the chunk that
its manifest lists cannot be decoded. -/
theorem abcAttempt_trusts_torn_chunk :
    Trusted abcPlatform [] ∅ ∧
      ∃ result s' m,
        abcAttempt.backup.run (abcAttempt.start
          (filesAfter ∅ [Event.crash abcAttempt abcCrash])) = .ok result s' ∧
        s'.files.lookup
          (manifestPath abcPlatform.root abcAttempt.execution.versionId) =
            some (abcPlatform.json.toVec m) ∧
        ¬ AllReadable abcPlatform s'.files m := by
  have hfiles : filesAfter ∅ [Event.crash abcAttempt abcCrash] =
      Files.write ∅ (chunkPath "/repo" abcHash)
        ((encodeEncryptedChunk abcEncrypted).take 1) := after_abcCrash
  rw [hfiles]
  generalize hleft : Files.write ∅ (chunkPath "/repo" abcHash)
    ((encodeEncryptedChunk abcEncrypted).take 1) = files
  have hlookup : files.lookup (chunkPath "/repo" abcHash) =
      some ((encodeEncryptedChunk abcEncrypted).take 1) := by
    rw [← hleft, Files.lookup_write, if_pos rfl]
  have hexists : chunkExists "/repo" files abcHash := by
    rw [chunkExists, hlookup]
    rfl
  have hstore : (abcAttempt.engine.storeChunk abcHash abc).run (abcStart files) =
      .ok (chunkLocation abcHash, 0) (abcKnown files) :=
    run_storeChunk_of_present abc rfl hexists
  refine ⟨trusted_empty _, _, _,
    abcAttempt.engine.fullManifest abcAttempt.execution (abcProgress abcPlatform 0),
    (run_bind_of_ok (run_collectFull_abc hstore rfl)).trans
      (run_completeBackup_of_no_journal _ _ _ rfl), lookup_writeManifest_self, ?_⟩
  intro hreadable
  have hlisted : abcHash ∈ listedChunks
      (abcAttempt.engine.fullManifest abcAttempt.execution
        (abcProgress abcPlatform 0)) :=
    List.mem_append_left _ (List.mem_flatMap.mpr
      ⟨_, List.mem_singleton_self _, List.mem_singleton_self _⟩)
  refine not_leadsTo_abcHash ?_ (hreadable abcHash hlisted).2
  exact (lookup_writeManifest_of_ne (manifestPath_ne_chunkPath _ _).symm
    (stagingPath_ne_chunkPath _ _).symm).trans hlookup

section OtherFile

/-- The platform of the examples with the hash of `abd`. -/
def abdPlatform : Platform :=
  { examplePlatform blankManifest with
    blake3 := fun data =>
      if data = abc then abcHash else if data = abd then abdHash else .ofEmpty }

/-- The backup of another file, with the content `abd`. -/
def abdAttempt : Attempt abdPlatform where
  engine := exampleEngine abdPlatform
  onPlatform := rfl
  source := {
    found := [exampleFile "/data/b" 3]
    content := fun path => if path = "/data/b" then some abd else none
    totalFiles := 1 }
  execution := exampleExecution 5
  job := exampleJob
  journal := none
  appendsLeft := none

/-- It crashes when one byte of its chunk is in the file. -/
def abdCrash : CrashPoint abdAttempt.engine abdAttempt.source abdAttempt.job where
  before := []
  file := exampleFile "/data/b" 3
  after := []
  content := abd
  stored := []
  chunk := { offset := 0, data := abd }
  rest := []
  kept := 1
  scanned := rfl
  opened := rfl
  cut := rfl

/-- The backup of the file with the content `abc` on the same platform. -/
def nextAttempt : Attempt abdPlatform where
  engine := exampleEngine abdPlatform
  onPlatform := rfl
  source := abcSource ["/data/a"]
  execution := exampleExecution 4
  job := exampleJob
  journal := none
  appendsLeft := none

theorem tornIn_abdCrash : tornIn ∅ [Event.crash abdAttempt abdCrash] = [abdHash] := by
  rfl

/-- The engine has written the chunk of the file. -/
def abcWritten (files : Files) : AgentState :=
  { abcStart files with
    chunkIdsDrawn := 1
    files := (writeChunk "/repo" abcHash abcEncrypted files).2
    index := LocalDedupIndex.registerNew ∅ abcHash (chunkLocation abcHash) }

theorem run_writeNewChunk_abc (files : Files) :
    ((exampleEngine abdPlatform).writeNewChunk abcHash abc).run (abcStart files) =
      .ok (chunkLocation abcHash, 12) (abcWritten files) := by
  rfl

theorem filesAfter_abdCrash : filesAfter ∅ [Event.crash abdAttempt abdCrash] =
    Files.write ∅ (chunkPath "/repo" abdHash)
      ((encodeEncryptedChunk (wrapChunk (0 :: abd))).take 1) := by
  rfl

theorem not_chunkExists_abdCrash :
    ¬ chunkExists "/repo" (filesAfter ∅ [Event.crash abdAttempt abdCrash]) abcHash := by
  have hpath : chunkPath "/repo" abcHash ≠ chunkPath "/repo" abdHash :=
    fun hp => absurd (chunkPath_injective hp) (by decide)
  rw [filesAfter_abdCrash]
  simp [chunkExists, hpath]

theorem exists_run_nextAttempt {files : Files}
    (hexists : ¬ chunkExists "/repo" files abcHash) :
    ∃ result s', nextAttempt.backup.run (nextAttempt.start files) = .ok result s' := by
  have hnew : ((exampleEngine abdPlatform).storeChunk abcHash abc).run (abcStart files) =
      ((exampleEngine abdPlatform).writeNewChunk abcHash abc).run (abcStart files) :=
    run_storeChunk_of_absent abc rfl hexists
  have hstore := hnew.trans (run_writeNewChunk_abc files)
  exact ⟨_, _, (run_bind_of_ok (run_collectFull_abc hstore rfl)).trans
    (run_completeBackup_of_no_journal _ _ _ rfl)⟩

theorem readsBack_abdPlatform : ReadsBack abdPlatform where
  decompress := (readsBack_examplePlatform blankManifest).decompress
  decrypt := (readsBack_examplePlatform blankManifest).decrypt

/-- The next backup has no use for the torn chunk, and what it lists can be
read even after another backup has taken that chunk as it is. -/
theorem allReadable_after_abdCrash :
    tornIn ∅ [Event.crash abdAttempt abdCrash] = [abdHash] ∧
      ∃ result s' m,
        nextAttempt.backup.run (nextAttempt.start
          (filesAfter ∅ [Event.crash abdAttempt abdCrash])) = .ok result s' ∧
        s'.files.lookup
          (manifestPath abdPlatform.root nextAttempt.execution.versionId) =
            some (abdPlatform.json.toVec m) ∧
        AllReadable abdPlatform (filesAfter s'.files [.run abdAttempt]) m := by
  obtain ⟨result, s', hrun⟩ := exists_run_nextAttempt not_chunkExists_abdCrash
  have hchunks : nextAttempt.chunks = [abcHash] := by
    rfl
  have hclean : ∀ h ∈ nextAttempt.chunks,
      h ∉ tornIn ∅ [Event.crash abdAttempt abdCrash] := by
    rw [hchunks, tornIn_abdCrash]
    intro h hmem htorn
    rw [List.mem_singleton] at hmem htorn
    exact absurd (hmem.symm.trans htorn) (by decide)
  obtain ⟨m, hmanifest, hreadable⟩ := allReadable_of_not_torn abdPlatform ∅
    [.crash abdAttempt abdCrash] [.run abdAttempt] nextAttempt result s'
    readsBack_abdPlatform (trusted_empty _) hrun hclean
  exact ⟨tornIn_abdCrash, result, s', m, hrun, hmanifest, hreadable⟩

end OtherFile

end Example

end TornChunk
end Agent
end HyperBackup
