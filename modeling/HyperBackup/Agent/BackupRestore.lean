import HyperBackup.Agent.Restore
import Mathlib.Data.Set.Function

/-!
# A full backup and its restore

Index and repository are sound if every chunk file and every index entry
leads to data with the hash it is filed under.  A full backup keeps this and
only adds: it never moves a chunk and never overwrites a file.  Hence every
chunk of the manifest it writes leads to the chunk's own data, and a restore
of that version delivers every file as it was.

Two conditions are needed that the engine does not check: a chunk that has to
be written must fit into the memory budget, or the engine waits for ever; and
no file may be restored onto a chunk file of the repository.
-/

namespace HyperBackup
namespace Agent
namespace BackupRestore

open Lib Lib.Program LocalRepository BackupEngine Restore

section Soundness

variable (platform : Platform)

/-- Decompression undoes compression and decryption undoes encryption. -/
structure LawfulCodec : Prop where
  compress : ∀ data, ∃ compressed,
    platform.compress data = .ok compressed ∧
      platform.decompress compressed = .ok data
  encrypt : ∀ plain chunkId, ∃ encrypted,
    platform.encryptChunk plain chunkId = .ok encrypted ∧
      platform.decryptChunk encrypted = .ok plain

/-- The location leads to data of the given set with the given hash. -/
def LeadsTo (D : Set Bytes) (files : Files) (location : ChunkLocation)
    (h : ChunkHash) : Prop :=
  ∃ data ∈ D, fetchChunk platform files location = .ok data ∧
    platform.blake3 data = h

/-- Every chunk file and every index entry leads to data with its hash. -/
structure SoundIn (D : Set Bytes) (s : AgentState) : Prop where
  stored : ∀ h, chunkExists platform.root s.files h →
    LeadsTo platform D s.files (chunkLocation h) h
  indexed : ∀ h entry, s.index.lookup h = some entry →
    LeadsTo platform D s.files entry.location h

/-- Soundness without a restriction on the data. -/
abbrev Sound (s : AgentState) : Prop :=
  SoundIn platform Set.univ s

/-- The data that the chunk files and index entries lead to. -/
def storedData (s : AgentState) : Set Bytes :=
  {data | ∃ h location, fetchChunk platform s.files location = .ok data ∧
    ((chunkExists platform.root s.files h ∧ location = chunkLocation h) ∨
      ∃ entry, s.index.lookup h = some entry ∧ location = entry.location)}

end Soundness

/-- Where a chunk is, or will be once it is stored. -/
def locationOf (s : AgentState) (h : ChunkHash) : ChunkLocation :=
  match s.index.lookup h with
  | some entry => entry.location
  | none => chunkLocation h

section Growth

variable (root : String)

/-- What storing chunks can do to the state: files are added at chunk paths,
index entries are added, and no chunk moves. -/
structure Grows (s s' : AgentState) : Prop where
  kept : ∀ path data, s.files.lookup path = some data →
    s'.files.lookup path = some data
  elsewhere : ∀ path, (∀ h, path ≠ chunkPath root h) →
    s'.files.lookup path = s.files.lookup path
  known : ∀ h, (s.index.lookup h).isSome → (s'.index.lookup h).isSome
  located : ∀ h, locationOf s' h = locationOf s h
  uncut : s.appendsLeft = none → s'.appendsLeft = none

end Growth

namespace Grows

variable {root : String} {s s₁ s₂ : AgentState}

theorem refl (s : AgentState) : Grows root s s where
  kept := fun _ _ h => h
  elsewhere := fun _ _ => rfl
  known := fun _ h => h
  located := fun _ => rfl
  uncut := fun h => h

theorem trans (h₁ : Grows root s s₁) (h₂ : Grows root s₁ s₂) :
    Grows root s s₂ where
  kept := fun path data h => h₂.kept path data (h₁.kept path data h)
  elsewhere := fun path h => (h₂.elsewhere path h).trans (h₁.elsewhere path h)
  known := fun h hs => h₂.known h (h₁.known h hs)
  located := fun h => (h₂.located h).trans (h₁.located h)
  uncut := fun h => h₂.uncut (h₁.uncut h)

/-- A state that differs in other components only. -/
theorem of_eq (hfiles : s₁.files = s.files) (hindex : s₁.index = s.index)
    (huncut : s.appendsLeft = none → s₁.appendsLeft = none) :
    Grows root s s₁ where
  kept := fun path data h => by rw [hfiles, h]
  elsewhere := fun path _ => by rw [hfiles]
  known := fun h hs => by rw [hindex]; exact hs
  located := fun h => by rw [locationOf, locationOf, hindex]
  uncut := huncut

/-- A chunk that is there stays there. -/
theorem chunkExists (h : Grows root s s₁) {hash : ChunkHash}
    (hexists : LocalRepository.chunkExists root s.files hash) :
    LocalRepository.chunkExists root s₁.files hash := by
  obtain ⟨data, hdata⟩ := Option.isSome_iff_exists.mp hexists
  exact Option.isSome_iff_exists.mpr ⟨data, h.kept _ _ hdata⟩

end Grows

section Storing

variable {platform : Platform} {D : Set Bytes} {s : AgentState}

/-- A location leads where it led as long as its file is kept. -/
theorem LeadsTo.of_kept {files files' : Files} {location : ChunkLocation}
    {h : ChunkHash}
    (hkept : ∀ data, files.lookup (locationPath platform.root location) =
        some data →
      files'.lookup (locationPath platform.root location) = some data)
    (hleads : LeadsTo platform D files location h) :
    LeadsTo platform D files' location h := by
  obtain ⟨data, hD, hfetch, hhash⟩ := hleads
  obtain ⟨bytes, hbytes⟩ := lookup_of_fetchChunk hfetch
  refine ⟨data, hD, ?_, hhash⟩
  rw [← hfetch]
  exact fetchChunk_congr ((hkept bytes hbytes).trans hbytes.symm)

/-- What was written as a chunk is fetched again. -/
theorem fetchChunk_of_written {files : Files} {h : ChunkHash}
    {encrypted : EncryptedChunk} {compressed data : Bytes}
    (hlookup : files.lookup (chunkPath platform.root h) =
      some (encodeEncryptedChunk encrypted))
    (hdecrypt : platform.decryptChunk encrypted = .ok compressed)
    (hdecompress : platform.decompress compressed = .ok data) :
    fetchChunk platform files (chunkLocation h) = .ok data := by
  have hpath : files.lookup (locationPath platform.root (chunkLocation h)) =
      some (encodeEncryptedChunk encrypted) :=
    hlookup
  simp only [fetchChunk, readChunk, readFile, hpath, bind, Except.bind,
    decodeEncryptedChunk_encode, Except.mapError, hdecrypt, hdecompress]

/-- Registering a chunk where it is keeps the index sound. -/
theorem SoundIn.registerNew {h : ChunkHash} (hsound : SoundIn platform D s)
    (hexists : chunkExists platform.root s.files h) :
    SoundIn platform D
      { s with index := s.index.registerNew h (chunkLocation h) } where
  stored := hsound.stored
  indexed := by
    intro h' entry hentry
    rw [LocalDedupIndex.lookup_registerNew] at hentry
    split at hentry
    · next heq =>
        cases hentry
        subst heq
        exact hsound.stored h' hexists
    · exact hsound.indexed h' entry hentry

theorem grows_registerNew {root : String} {h : ChunkHash}
    (hnew : s.index.lookup h = none) :
    Grows root s { s with index := s.index.registerNew h (chunkLocation h) } where
  kept := fun _ _ hdata => hdata
  elsewhere := fun _ _ => rfl
  known := by
    intro h' hsome
    rw [LocalDedupIndex.lookup_registerNew]
    split
    · rfl
    · exact hsome
  located := by
    intro h'
    simp only [locationOf, LocalDedupIndex.lookup_registerNew]
    by_cases heq : h' = h
    · subst heq
      simp [hnew]
    · simp [heq]
  uncut := fun huncut => huncut

/-- Writing a chunk that was not there keeps every chunk sound. -/
theorem SoundIn.write {h : ChunkHash} {encrypted : EncryptedChunk}
    {compressed data : Bytes} (hsound : SoundIn platform D s)
    (hnew : ¬ chunkExists platform.root s.files h)
    (hdecrypt : platform.decryptChunk encrypted = .ok compressed)
    (hdecompress : platform.decompress compressed = .ok data)
    (hD : data ∈ D) (hhash : platform.blake3 data = h) :
    SoundIn platform D
      { s with
        files := Files.write s.files (chunkPath platform.root h)
          (encodeEncryptedChunk encrypted) } := by
  have hkept : ∀ path bytes, s.files.lookup path = some bytes →
      (Files.write s.files (chunkPath platform.root h)
        (encodeEncryptedChunk encrypted)).lookup path = some bytes := by
    intro path bytes hbytes
    rw [Files.lookup_write, if_neg, hbytes]
    rintro rfl
    exact hnew (by simp [chunkExists, hbytes])
  constructor
  · intro h' hexists
    by_cases heq : h' = h
    · subst heq
      refine ⟨data, hD, ?_, hhash⟩
      exact fetchChunk_of_written (by simp) hdecrypt hdecompress
    · refine (hsound.stored h' ?_).of_kept (fun bytes => hkept _ bytes)
      have hpath : chunkPath platform.root h' ≠ chunkPath platform.root h :=
        fun hp => heq (chunkPath_injective hp)
      simpa [chunkExists, hpath] using hexists
  · intro h' entry hentry
    exact (hsound.indexed h' entry hentry).of_kept (fun bytes => hkept _ bytes)

theorem grows_write {root : String} {h : ChunkHash} {bytes : Bytes}
    (hnew : ¬ chunkExists root s.files h) :
    Grows root s
      { s with files := Files.write s.files (chunkPath root h) bytes } where
  kept := by
    intro path data hdata
    rw [Files.lookup_write, if_neg, hdata]
    rintro rfl
    exact hnew (by simp [chunkExists, hdata])
  elsewhere := by
    intro path hpath
    rw [Files.lookup_write, if_neg (hpath h)]
  known := fun _ hsome => hsome
  located := fun _ => rfl
  uncut := fun huncut => huncut

end Storing

section Backup

variable (engine : BackupEngine)

/-- A chunk that has to be written fits into the memory budget. -/
def Room (s : AgentState) (data : Bytes) : Prop :=
  s.index.lookup (engine.blake3 data) = none →
    ¬ chunkExists engine.root s.files (engine.blake3 data) →
      ∀ compressed chunkId encrypted,
        engine.compress data = .ok compressed →
          engine.encryptChunk compressed chunkId = .ok encrypted →
            encrypted.ciphertext.length ≤ engine.memoryLimit

/-- What storing chunks achieves. -/
structure Stores (D : Set Bytes) (s s' : AgentState)
    (chunks : List RawChunkData) : Prop where
  grows : Grows engine.root s s'
  sound : SoundIn engine.toPlatform D s'
  known : ∀ c ∈ chunks, (s'.index.lookup (engine.blake3 c.data)).isSome

/-- The reference that is recorded for a chunk. -/
def chunkRef (versionId : VersionId) (path : String) (chunk : RawChunkData) :
    ChunkReference where
  hash := engine.blake3 chunk.data
  versionId := versionId
  filePath := path
  offset := chunk.offset

/-- The location that is recorded for a chunk. -/
def locationPair (s : AgentState) (chunk : RawChunkData) :
    String × ChunkLocation :=
  ((engine.blake3 chunk.data).toHex, locationOf s (engine.blake3 chunk.data))

variable {engine} {D : Set Bytes} {s s₀ s₁ : AgentState}

theorem Stores.trans {chunks chunks' : List RawChunkData}
    (h₀ : Stores engine D s₀ s chunks) (h : Stores engine D s s₁ chunks') :
    Stores engine D s₀ s₁ (chunks ++ chunks') where
  grows := h₀.grows.trans h.grows
  sound := h.sound
  known := by
    intro c hc
    rcases List.mem_append.mp hc with hc | hc
    · exact h.grows.known _ (h₀.known c hc)
    · exact h.known c hc

theorem Room.of_grows {data : Bytes} (hroom : Room engine s₀ data)
    (hgrows : Grows engine.root s₀ s) : Room engine s data := by
  intro hnone hnew
  refine hroom ?_ (fun hexists => hnew (hgrows.chunkExists hexists))
  by_contra hsome
  have hknown := hgrows.known _ (Option.isSome_iff_ne_none.mpr hsome)
  rw [hnone] at hknown
  cases hknown

/-- A chunk that is new is written where it is looked for. -/
theorem returns_writeNewChunk
    (hcodec : LawfulCodec engine.toPlatform)
    (hsound : SoundIn engine.toPlatform D s) {data : Bytes} (hD : data ∈ D)
    (hroom : Room engine s data)
    (hnone : s.index.lookup (engine.blake3 data) = none)
    (hnew : ¬ chunkExists engine.root s.files (engine.blake3 data)) :
    Returns (engine.writeNewChunk (engine.blake3 data) data) s
      (fun r s' => r.1 = chunkLocation (engine.blake3 data) ∧
        Grows engine.root s s' ∧ SoundIn engine.toPlatform D s' ∧
        (s'.index.lookup (engine.blake3 data)).isSome) := by
  obtain ⟨compressed, hcompress, hdecompress⟩ := hcodec.compress data
  obtain ⟨encrypted, hencrypt, hdecrypt⟩ :=
    hcodec.encrypt compressed (engine.newChunkId s.chunkIdsDrawn)
  have hfits := hroom hnone hnew _ _ _ hcompress hencrypt
  have hmemory : (engine.acquireMemory encrypted.ciphertext.length).run
      { s with chunkIdsDrawn := s.chunkIdsDrawn + 1 } =
        .ok () { s with chunkIdsDrawn := s.chunkIdsDrawn + 1 } := by
    simp only [acquireMemory, if_pos (Or.inr hfits)]
    rfl
  refine returns_bind_of_run (run_ofResult_eq_ok.mpr ⟨hcompress, rfl⟩) ?_
  refine returns_get_bind ?_
  refine returns_bind_of_run (a := ⟨⟩) rfl ?_
  refine returns_bind_of_run (run_ofResult_eq_ok.mpr ⟨hencrypt, rfl⟩) ?_
  refine returns_bind_of_run hmemory ?_
  refine returns_bind_of_run (a := ⟨⟩) rfl (returns_pure ⟨rfl, ?_, ?_, ?_⟩)
  · have hdrawn : Grows engine.root s
        { s with chunkIdsDrawn := s.chunkIdsDrawn + 1 } :=
      .of_eq rfl rfl (fun huncut => huncut)
    exact (hdrawn.trans (grows_write hnew)).trans (grows_registerNew hnone)
  · have hwritten := hsound.write hnew hdecrypt hdecompress hD rfl
    have hregistered := hwritten.registerNew (h := engine.blake3 data)
      (by simp [chunkExists])
    exact ⟨hregistered.stored, hregistered.indexed⟩
  · simp [LocalDedupIndex.lookup_registerNew]

/-- A chunk is stored, and recorded where it is. -/
theorem returns_storeChunk
    (hcodec : LawfulCodec engine.toPlatform)
    (hsound : SoundIn engine.toPlatform D s) {data : Bytes} (hD : data ∈ D)
    (hroom : Room engine s data) :
    Returns (engine.storeChunk (engine.blake3 data) data) s
      (fun r s' => r.1 = locationOf s (engine.blake3 data) ∧
        Grows engine.root s s' ∧ SoundIn engine.toPlatform D s' ∧
        (s'.index.lookup (engine.blake3 data)).isSome) := by
  cases hlookup : s.index.lookup (engine.blake3 data) with
  | some entry =>
      refine ⟨_, s, run_storeChunk_of_known hlookup data, ?_⟩
      exact ⟨by simp [locationOf, hlookup], .refl s, hsound, by simp [hlookup]⟩
  | none =>
      have hlocation : locationOf s (engine.blake3 data) =
          chunkLocation (engine.blake3 data) := by
        simp [locationOf, hlookup]
      refine returns_get_bind ?_
      simp only [hlookup, hlocation]
      by_cases hexists : chunkExists engine.root s.files (engine.blake3 data)
      · have hfind : findChunk engine.root s.files (engine.blake3 data) =
            .ok (chunkLocation (engine.blake3 data)) :=
          if_pos hexists
        simp only [if_pos hexists]
        refine returns_bind_of_run (run_ofResult_eq_ok.mpr ⟨hfind, rfl⟩) ?_
        refine returns_bind_of_run (a := ⟨⟩) rfl (returns_pure ⟨rfl, ?_, ?_, ?_⟩)
        · exact grows_registerNew hlookup
        · exact hsound.registerNew hexists
        · simp [LocalDedupIndex.lookup_registerNew]
      · simp only [if_neg hexists]
        exact returns_writeNewChunk hcodec hsound hD hroom hlookup hexists

/-- One chunk of a file is stored and recorded. -/
theorem returns_processChunk
    (hcodec : LawfulCodec engine.toPlatform)
    (hsound : SoundIn engine.toPlatform D s) (versionId : VersionId)
    (path : String) (p : Progress) {chunk : RawChunkData}
    (hD : chunk.data ∈ D) (hroom : Room engine s chunk.data) :
    Returns (engine.processChunk versionId path p chunk) s
      (fun p' s' =>
        p'.files = p.files ∧
        p'.chunkRefs = p.chunkRefs ++ [chunkRef engine versionId path chunk] ∧
        p'.chunkLocations =
          HashMap.insertAll p.chunkLocations [locationPair engine s chunk] ∧
        Stores engine D s s' [chunk]) := by
  refine returns_bind (returns_storeChunk hcodec hsound hD hroom) ?_
  rintro ⟨location, stored⟩ s' ⟨rfl, hgrows, hsound', hknown⟩
  refine returns_pure ⟨rfl, rfl, rfl, hgrows, hsound', ?_⟩
  intro c hc
  cases List.mem_singleton.mp hc
  exact hknown

/-- A file is cut, stored and recorded as a whole. -/
theorem returns_processFile
    (hcodec : LawfulCodec engine.toPlatform)
    (hsound : SoundIn engine.toPlatform D s) (versionId : VersionId)
    (job : BackupJob) (p : Progress) (f : FileEntry) {content : Bytes}
    {chunks : List RawChunkData}
    (hchunks : engine.chunker (job.chunkingProfile.toChunkStrategy f.size)
      content = .ok chunks)
    (hD : ∀ c ∈ chunks, c.data ∈ D)
    (hroom : ∀ c ∈ chunks, Room engine s c.data) :
    Returns (engine.processFile versionId job p f content) s
      (fun p' s' =>
        p'.files = p.files ++ [engine.completedEntry f chunks] ∧
        p'.chunkRefs =
          p.chunkRefs ++ chunks.map (chunkRef engine versionId f.path) ∧
        p'.chunkLocations =
          HashMap.insertAll p.chunkLocations
            (chunks.map (locationPair engine s)) ∧
        Stores engine D s s' chunks) := by
  refine returns_bind_of_run (run_ofResult_eq_ok.mpr ⟨hchunks, rfl⟩) ?_
  refine returns_bind (returns_foldlM chunks
    (fun done p' s' =>
      p'.files = p.files ∧
      p'.chunkRefs =
        p.chunkRefs ++ done.map (chunkRef engine versionId f.path) ∧
      p'.chunkLocations =
        HashMap.insertAll p.chunkLocations (done.map (locationPair engine s)) ∧
      Stores engine D s s' done) ?_ ?_) ?_
  · refine ⟨rfl, by simp, rfl, .refl s, hsound, by simp⟩
  · rintro done c rest p₁ s₁ hsplit ⟨hfiles, hrefs, hlocations, hstores⟩
    have hc : c ∈ chunks := by simp [hsplit]
    refine returns_mono (returns_processChunk hcodec hstores.sound versionId
      f.path p₁ (hD c hc) ((hroom c hc).of_grows hstores.grows)) ?_
    rintro p₂ s₂ ⟨hfiles', hrefs', hlocations', hstores'⟩
    have hpair : locationPair engine s₁ c = locationPair engine s c := by
      rw [locationPair, locationPair, hstores.grows.located]
    refine ⟨hfiles'.trans hfiles, ?_, ?_, hstores.trans hstores'⟩
    · rw [hrefs', hrefs, List.map_append, List.append_assoc]
      rfl
    · rw [hlocations', hlocations, hpair, List.map_append,
        HashMap.insertAll_append]
      rfl
  · rintro p' s' ⟨hfiles, hrefs, hlocations, hstores⟩
    exact returns_pure ⟨by rw [hfiles], hrefs, hlocations, hstores⟩

/-- Without a cut-off journalling returns and changes the journal only. -/
theorem returns_appendJournal (huncut : s.appendsLeft = none)
    (entry : JournalEntry) :
    Returns (engine.appendJournal entry) s
      (fun _ s' => s'.files = s.files ∧ s'.index = s.index ∧
        s'.appendsLeft = none) := by
  cases s with
  | mk files index journal chunkIdsDrawn appendsLeft =>
      cases huncut
      cases journal with
      | none =>
          exact ⟨_, _, rfl, rfl, rfl, rfl⟩
      | some journal =>
          exact ⟨_, _, rfl, rfl, rfl, rfl⟩

theorem returns_journalProcessed (huncut : s.appendsLeft = none)
    (job : BackupJob) (p : Progress) :
    Returns (engine.journalProcessed job p) s
      (fun _ s' => s'.files = s.files ∧ s'.index = s.index ∧
        s'.appendsLeft = none) := by
  unfold journalProcessed
  cases p.files.getLast? with
  | none =>
      exact returns_pure ⟨rfl, rfl, huncut⟩
  | some entry =>
      exact returns_appendJournal huncut _

/-- Other components do not matter for what was stored. -/
theorem Stores.of_eq {chunks : List RawChunkData} {s' : AgentState}
    (h : Stores engine D s s₁ chunks) (hfiles : s'.files = s₁.files)
    (hindex : s'.index = s₁.index) (huncut : s'.appendsLeft = none) :
    Stores engine D s s' chunks where
  grows := h.grows.trans (.of_eq hfiles hindex fun _ => huncut)
  sound := by
    constructor
    · rw [hfiles]
      exact h.sound.stored
    · rw [hfiles, hindex]
      exact h.sound.indexed
  known := by
    rw [hindex]
    exact h.known

end Backup

section FullBackup

variable (engine : BackupEngine) (source : Source) (run : Execution)
  (job : BackupJob)

/-- The chunks of a file of the source. -/
def fileChunks (f : FileEntry) : List RawChunkData :=
  match source.content f.path with
  | none => []
  | some content =>
      ((engine.chunker (job.chunkingProfile.toChunkStrategy f.size)
        content).toOption).getD []

/-- Every file can be opened and is cut into chunks that make it up. -/
def CutsEveryFile : Prop :=
  ∀ f ∈ source.found, ∃ content chunks,
    source.content f.path = some content ∧
    engine.chunker (job.chunkingProfile.toChunkStrategy f.size) content =
      .ok chunks ∧
    chunks.flatMap RawChunkData.data = content

/-- The data that the backup deals with: what is stored, and the chunks. -/
def dataInvolved (s : AgentState) : Set Bytes :=
  storedData engine.toPlatform s ∪
    {data | ∃ f ∈ source.found, ∃ c ∈ fileChunks engine source job f,
      c.data = data}

/-- The manifest that a full backup from the given state writes. -/
def sourceManifest (s : AgentState) : Manifest :=
  engine.buildManifest run none 1 .full
    (source.found.map fun f =>
      engine.completedEntry f (fileChunks engine source job f))
    (source.found.flatMap fun f =>
      (fileChunks engine source job f).map
        (chunkRef engine run.versionId f.path))
    (HashMap.collect
      ((source.found.flatMap (fileChunks engine source job)).map
        (locationPair engine s)))

/-- What has been collected after some files. -/
structure Collected (D : Set Bytes) (s : AgentState) (done : List FileEntry)
    (p : Progress) (s' : AgentState) : Prop where
  files : p.files = done.map fun f =>
    engine.completedEntry f (fileChunks engine source job f)
  chunkRefs : p.chunkRefs = done.flatMap fun f =>
    (fileChunks engine source job f).map (chunkRef engine run.versionId f.path)
  chunkLocations : p.chunkLocations =
    HashMap.collect ((done.flatMap (fileChunks engine source job)).map
      (locationPair engine s))
  stores : Stores engine D s s' (done.flatMap (fileChunks engine source job))
  uncut : s'.appendsLeft = none

variable {engine source run job} {D : Set Bytes} {s : AgentState}

theorem chunker_fileChunks (hcuts : CutsEveryFile engine source job)
    {f : FileEntry} (hf : f ∈ source.found) :
    ∃ content, source.content f.path = some content ∧
      engine.chunker (job.chunkingProfile.toChunkStrategy f.size) content =
        .ok (fileChunks engine source job f) ∧
      (fileChunks engine source job f).flatMap RawChunkData.data = content := by
  obtain ⟨content, chunks, hcontent, hchunks, hconcat⟩ := hcuts f hf
  have heq : fileChunks engine source job f = chunks := by
    simp [fileChunks, hcontent, hchunks, Except.toOption]
  exact ⟨content, hcontent, heq ▸ hchunks, heq ▸ hconcat⟩

/-- The next file is collected. -/
theorem returns_backupFile
    (hcodec : LawfulCodec engine.toPlatform)
    (hcuts : CutsEveryFile engine source job)
    {done : List FileEntry} {p : Progress} {s' : AgentState}
    (hcollected : Collected engine source run job D s done p s')
    {f : FileEntry} (hf : f ∈ source.found)
    (hD : ∀ c ∈ fileChunks engine source job f, c.data ∈ D)
    (hroom : ∀ c ∈ fileChunks engine source job f, Room engine s c.data) :
    Returns (engine.backupFile source run job p f) s'
      (Collected engine source run job D s (done ++ [f])) := by
  obtain ⟨content, hcontent, hchunks, _⟩ := chunker_fileChunks hcuts hf
  simp only [backupFile, hcontent]
  refine returns_bind (returns_processFile hcodec hcollected.stores.sound
    run.versionId job p f hchunks hD
    (fun c hc => (hroom c hc).of_grows hcollected.stores.grows)) ?_
  rintro p' s₁ ⟨hfiles, hrefs, hlocations, hstores⟩
  have hpairs : (fileChunks engine source job f).map (locationPair engine s') =
      (fileChunks engine source job f).map (locationPair engine s) := by
    refine List.map_congr_left ?_
    intro c _
    rw [locationPair, locationPair, hcollected.stores.grows.located]
  refine returns_bind (returns_journalProcessed
    (hstores.grows.uncut hcollected.uncut) job p') ?_
  rintro _ s₂ ⟨hfiles₂, hindex₂, huncut₂⟩
  refine returns_pure ⟨?_, ?_, ?_, ?_, huncut₂⟩
  · rw [hfiles, hcollected.files, List.map_append]
    rfl
  · rw [hrefs, hcollected.chunkRefs, List.flatMap_append]
    simp
  · rw [hlocations, hcollected.chunkLocations, hpairs, List.flatMap_append,
      List.map_append]
    simp [HashMap.collect, HashMap.insertAll_append]
  · have hall := (hcollected.stores.trans hstores).of_eq hfiles₂ hindex₂ huncut₂
    simpa [List.flatMap_append] using hall

/-- A full backup collects all files of the source. -/
theorem returns_collectFull
    (hcodec : LawfulCodec engine.toPlatform)
    (hcuts : CutsEveryFile engine source job)
    (hsound : SoundIn engine.toPlatform D s) (huncut : s.appendsLeft = none)
    (hD : ∀ f ∈ source.found, ∀ c ∈ fileChunks engine source job f, c.data ∈ D)
    (hroom : ∀ f ∈ source.found, ∀ c ∈ fileChunks engine source job f,
      Room engine s c.data) :
    Returns (engine.collectFull source run job) s
      (Collected engine source run job D s source.found) := by
  refine returns_bind (returns_appendJournal huncut _) ?_
  rintro _ s₁ ⟨hfiles, hindex, huncut₁⟩
  have hstart : Stores engine D s s [] := ⟨.refl s, hsound, by simp⟩
  refine returns_foldlM source.found
    (Collected engine source run job D s) ?_ ?_
  · exact ⟨rfl, rfl, rfl, hstart.of_eq hfiles hindex huncut₁, huncut₁⟩
  · intro done f rest p s' hsplit hcollected
    have hf : f ∈ source.found := by
      rw [hsplit]
      simp
    exact returns_backupFile hcodec hcuts hcollected hf (hD f hf) (hroom f hf)

/-- The version has no manifest yet, neither in place nor in staging. -/
def FreshVersion (root : String) (s : AgentState) (v : VersionId) : Prop :=
  s.files.lookup (manifestPath root v) = none ∧
    s.files.lookup (stagingPath root v) = none

/-- What a completed backup leaves: sound chunks at the places where they
were or were put, and the manifest of the source. -/
structure Committed (engine : BackupEngine) (source : Source) (run : Execution)
    (job : BackupJob) (D : Set Bytes) (s s₁ : AgentState) : Prop where
  sound : SoundIn engine.toPlatform D s₁
  located : ∀ h entry, s₁.index.lookup h = some entry →
    entry.location = locationOf s h
  chunks : ∀ f ∈ source.found, ∀ c ∈ fileChunks engine source job f,
    LeadsTo engine.toPlatform D s₁.files
      (locationOf s (engine.blake3 c.data)) (engine.blake3 c.data)
  manifest : s₁.files.lookup (manifestPath engine.root run.versionId) =
    some (engine.json.toVec (sourceManifest engine source run job s))

theorem location_of_lookup_addReferences
    {index : LocalDedupIndex} {references : List ChunkReference}
    {h : ChunkHash} {entry : IndexEntry}
    (hentry : (index.addReferences references).lookup h = some entry) :
    ∃ entry', index.lookup h = some entry' ∧
      entry'.location = entry.location := by
  have hlocation :=
    LocalDedupIndex.location_lookup_addReferences references h index
  rw [hentry] at hlocation
  exact Option.map_eq_some_iff.mp hlocation.symm

/-- A fresh manifest overwrites no file. -/
theorem kept_writeManifest {files : Files} {v : VersionId} {m : Manifest}
    {path : String} {data : Bytes}
    (hmanifest : files.lookup (manifestPath engine.root v) = none)
    (hstaging : files.lookup (stagingPath engine.root v) = none)
    (hdata : files.lookup path = some data) :
    (writeManifest engine.root engine.json v m files).lookup path =
      some data := by
  have hne : ∀ path', files.lookup path' = none → path ≠ path' := by
    intro path' hnone heq
    rw [heq, hnone] at hdata
    cases hdata
  rw [lookup_writeManifest_of_ne (hne _ hmanifest) (hne _ hstaging), hdata]

/-- The commit of what was collected. -/
theorem committed_of_collected {p : Progress} {s' s₁ : AgentState}
    (hfresh : FreshVersion engine.root s run.versionId)
    (h : Collected engine source run job D s source.found p s')
    (hindex : s₁.index = s'.index.addReferences
      (engine.fullManifest run p).chunkRefs)
    (hfiles : s₁.files = writeManifest engine.root engine.json run.versionId
      (engine.fullManifest run p) s'.files) :
    Committed engine source run job D s s₁ := by
  have hmanifest : s'.files.lookup (manifestPath engine.root run.versionId) =
      none := by
    rw [h.stores.grows.elsewhere _ fun c => manifestPath_ne_chunkPath _ c]
    exact hfresh.1
  have hstaging : s'.files.lookup (stagingPath engine.root run.versionId) =
      none := by
    rw [h.stores.grows.elsewhere _ fun c => stagingPath_ne_chunkPath _ c]
    exact hfresh.2
  have hkept : ∀ path data, s'.files.lookup path = some data →
      s₁.files.lookup path = some data := by
    intro path data hdata
    rw [hfiles]
    exact kept_writeManifest hmanifest hstaging hdata
  constructor
  · constructor
    · intro c hexists
      rw [hfiles, chunkExists_writeManifest] at hexists
      exact (h.stores.sound.stored c hexists).of_kept (fun data => hkept _ data)
    · intro c entry hentry
      rw [hindex] at hentry
      obtain ⟨entry', hentry', hlocation⟩ :=
        location_of_lookup_addReferences hentry
      rw [← hlocation]
      exact (h.stores.sound.indexed c entry' hentry').of_kept
        (fun data => hkept _ data)
  · intro c entry hentry
    rw [hindex] at hentry
    obtain ⟨entry', hentry', hlocation⟩ :=
      location_of_lookup_addReferences hentry
    rw [← hlocation, ← h.stores.grows.located]
    simp [locationOf, hentry']
  · intro f hf c hc
    have hall : c ∈ source.found.flatMap (fileChunks engine source job) :=
      List.mem_flatMap.mpr ⟨f, hf, hc⟩
    obtain ⟨entry, hentry⟩ :=
      Option.isSome_iff_exists.mp (h.stores.known c hall)
    have hlocation : entry.location = locationOf s (engine.blake3 c.data) := by
      rw [← h.stores.grows.located]
      simp [locationOf, hentry]
    rw [← hlocation]
    exact (h.stores.sound.indexed _ entry hentry).of_kept
      (fun data => hkept _ data)
  · have hbuilt : engine.fullManifest run p =
        sourceManifest engine source run job s := by
      rw [fullManifest, sourceManifest, h.files, h.chunkRefs, h.chunkLocations]
    rw [hfiles, lookup_writeManifest_self, hbuilt]

/-- A full backup from a sound state returns and commits. -/
theorem returns_runBackup
    (hcodec : LawfulCodec engine.toPlatform)
    (hcuts : CutsEveryFile engine source job)
    (hsound : SoundIn engine.toPlatform D s) (huncut : s.appendsLeft = none)
    (hfresh : FreshVersion engine.root s run.versionId)
    (hD : ∀ f ∈ source.found, ∀ c ∈ fileChunks engine source job f, c.data ∈ D)
    (hroom : ∀ f ∈ source.found, ∀ c ∈ fileChunks engine source job f,
      Room engine s c.data) :
    Returns (engine.runBackup source run job) s
      (fun result s₁ => result.versionId = some run.versionId ∧
        Committed engine source run job D s s₁) := by
  refine returns_bind
    (returns_collectFull hcodec hcuts hsound huncut hD hroom) ?_
  intro p s' hcollected
  refine returns_bind_of_run (a := ⟨⟩) rfl ?_
  refine returns_bind (returns_appendJournal ?_ _) ?_
  · exact hcollected.uncut
  rintro _ s₁ ⟨hfiles, hindex, _⟩
  exact returns_pure
    ⟨rfl, committed_of_collected hfresh hcollected hindex hfiles⟩

end FullBackup

section RestoreVersion

variable {engine : BackupEngine} {source : Source} {run : Execution}
  {job : BackupJob} {s s₁ : AgentState}

/-- The data of the backup without a restriction is sound. -/
theorem soundIn_dataInvolved (hsound : Sound engine.toPlatform s) :
    SoundIn engine.toPlatform (dataInvolved engine source job s) s := by
  constructor
  · intro h hexists
    obtain ⟨data, _, hfetch, hhash⟩ := hsound.stored h hexists
    exact ⟨data, Or.inl ⟨h, _, hfetch, Or.inl ⟨hexists, rfl⟩⟩, hfetch, hhash⟩
  · intro h entry hentry
    obtain ⟨data, _, hfetch, hhash⟩ := hsound.indexed h entry hentry
    exact ⟨data, Or.inl ⟨h, _, hfetch, Or.inr ⟨entry, hentry, rfl⟩⟩,
      hfetch, hhash⟩

/-- The manifest has the location of every chunk. -/
theorem lookup_chunkLocations {f : FileEntry} (hf : f ∈ source.found)
    {c : RawChunkData} (hc : c ∈ fileChunks engine source job f) :
    (sourceManifest engine source run job s).chunkLocations.lookup
        (engine.blake3 c.data).toHex =
      some (locationOf s (engine.blake3 c.data)) := by
  refine HashMap.lookup_collect_of_forall ?_ ?_
  · simp only [List.map_map, List.mem_map]
    exact ⟨c, List.mem_flatMap.mpr ⟨f, hf, hc⟩, rfl⟩
  · intro location hlocation
    obtain ⟨c', _, hpair⟩ := List.mem_map.mp hlocation
    simp only [locationPair, Prod.mk.injEq, ChunkHash.toHex_inj] at hpair
    rw [← hpair.2, hpair.1]

/-- Every chunk of the version is fetched as it was. -/
theorem fetchChunk_of_committed
    (hinj : Set.InjOn engine.blake3 (dataInvolved engine source job s))
    (h : Committed engine source run job (dataInvolved engine source job s) s s₁)
    {f : FileEntry} (hf : f ∈ source.found)
    {c : RawChunkData} (hc : c ∈ fileChunks engine source job f) :
    fetchChunk engine.toPlatform s₁.files
      (locationOf s (engine.blake3 c.data)) = .ok c.data := by
  obtain ⟨data, hD, hfetch, hhash⟩ := h.chunks f hf c hc
  have hdata : data = c.data := hinj hD (Or.inr ⟨f, hf, c, hc, rfl⟩) hhash
  rw [hfetch, hdata]

theorem isAbsolute_baseName (path : String) :
    Path.isAbsolute (baseName path) = false := by
  unfold baseName
  cases hname : Path.fileName path with
  | none =>
      rfl
  | some name =>
      exact Path.isAbsolute_fileName hname

/-- The mode writes every file under its own name. -/
def WritesAll (mode : RestoreMode) : Prop :=
  mode = .overwrite ∨ mode = .newLocation

/-- Where a file of the source is restored to. -/
def targetOf (rjob : RestoreJob) (f : FileEntry) : String :=
  computeTargetPath rjob.targetLocation f.path rjob.restoreMode

/-- Files with different names are restored to different places. -/
theorem baseName_eq_of_targetOf_eq {rjob : RestoreJob}
    (hmode : WritesAll rjob.restoreMode) {f g : FileEntry}
    (h : targetOf rjob f = targetOf rjob g) :
    baseName f.path = baseName g.path := by
  refine Path.join_injOn_relative (isAbsolute_baseName _)
    (isAbsolute_baseName _) (p := rjob.targetLocation) ?_
  rcases hmode with hmode | hmode
  · simpa [targetOf, hmode, computeTargetPath] using h
  · simpa [targetOf, hmode, computeTargetPath] using h

/-- No file is restored onto a chunk file or onto a file that the index leads
to. -/
def AvoidsChunks (engine : BackupEngine) (source : Source) (s : AgentState)
    (rjob : RestoreJob) : Prop :=
  ∀ f ∈ source.found,
    (∀ h, targetOf rjob f ≠ chunkPath engine.root h) ∧
    ∀ h entry, s.index.lookup h = some entry →
      targetOf rjob f ≠ locationPath engine.root entry.location

theorem targetOf_ne_locationOf {rjob : RestoreJob}
    (havoids : AvoidsChunks engine source s rjob) (h : ChunkHash) :
    ∀ f ∈ source.found,
      locationPath engine.root (locationOf s h) ≠ targetOf rjob f := by
  intro f hf
  unfold locationOf
  cases hlookup : s.index.lookup h with
  | none =>
      exact ((havoids f hf).1 h).symm
  | some entry =>
      exact ((havoids f hf).2 h entry hlookup).symm

/-- What has been restored after some files. -/
structure Restored (source : Source) (rjob : RestoreJob) (start : Files)
    (done : List FileEntry) (r : RestoreResult) (files : Files) : Prop where
  verified : r.allVerified = true
  unfailed : r.filesFailed = 0
  untouched : ∀ path, (∀ f ∈ source.found, path ≠ targetOf rjob f) →
    files.lookup path = start.lookup path
  contents : ∀ f ∈ done, files.lookup (targetOf rjob f) = source.content f.path

/-- The data of a file is read back from its chunks. -/
theorem readFileData_of_restored {rjob : RestoreJob}
    {done : List FileEntry} {r : RestoreResult} {files : Files}
    (hinj : Set.InjOn engine.blake3 (dataInvolved engine source job s))
    (h : Committed engine source run job (dataInvolved engine source job s) s s₁)
    (havoids : AvoidsChunks engine source s rjob)
    (hrestored : Restored source rjob s₁.files done r files)
    {f : FileEntry} (hf : f ∈ source.found) :
    readFileData engine.toPlatform files (sourceManifest engine source run job s)
        ((fileChunks engine source job f).map
          fun c => engine.blake3 c.data) =
      .ok ((fileChunks engine source job f).flatMap RawChunkData.data) := by
  refine readFileData_eq_ok _ _ _ ?_
  intro c hc
  have hlocate : locateChunk engine.toPlatform files
      (sourceManifest engine source run job s) (engine.blake3 c.data) =
        locationOf s (engine.blake3 c.data) := by
    simp only [locateChunk, lookup_chunkLocations hf hc]
  rw [hlocate, ← fetchChunk_of_committed hinj h hf hc]
  exact fetchChunk_congr
    (hrestored.untouched _ (targetOf_ne_locationOf havoids _))

/-- The next file is restored. -/
theorem returns_restoreFile {rjob : RestoreJob}
    {done rest : List FileEntry} {r : RestoreResult} {files : Files}
    {f : FileEntry} (hmode : WritesAll rjob.restoreMode)
    (hcuts : CutsEveryFile engine source job)
    (hdistinct : (source.found.map fun f => baseName f.path).Nodup)
    (hinj : Set.InjOn engine.blake3 (dataInvolved engine source job s))
    (h : Committed engine source run job (dataInvolved engine source job s) s s₁)
    (havoids : AvoidsChunks engine source s rjob)
    (hrestored : Restored source rjob s₁.files done r files)
    (hsplit : source.found = done ++ f :: rest) :
    Returns (restoreFile engine.toPlatform rjob
        (sourceManifest engine source run job s) r
        (engine.completedEntry f (fileChunks engine source job f))) files
      (Restored source rjob s₁.files (done ++ [f])) := by
  have hf : f ∈ source.found := by
    rw [hsplit]
    simp
  obtain ⟨content, hcontent, _, hconcat⟩ := chunker_fileChunks hcuts hf
  have hread := readFileData_of_restored hinj h havoids hrestored hf
  have hnoskip : ¬ (rjob.restoreMode = .skip ∧
      (files.lookup (targetOf rjob f)).isSome) := by
    rintro ⟨hskip, _⟩
    rcases hmode with hmode | hmode
    · rw [hmode] at hskip
      cases hskip
    · rw [hmode] at hskip
      cases hskip
  have hother : ∀ g ∈ done, targetOf rjob g ≠ targetOf rjob f := by
    intro g hg heq
    have hname := baseName_eq_of_targetOf_eq hmode heq
    rw [hsplit, List.map_append, List.map_cons, List.nodup_append] at hdistinct
    exact hdistinct.2.2 _ (List.mem_map.mpr ⟨g, hg, rfl⟩) _
      List.mem_cons_self hname
  refine returns_get_bind ?_
  change Returns (if rjob.restoreMode = .skip ∧
    (files.lookup (targetOf rjob f)).isSome then _ else _) files _
  rw [if_neg hnoskip]
  refine returns_bind_of_run (run_ofResult_eq_ok.mpr ⟨hread, rfl⟩) ?_
  refine returns_bind_of_run (a := ⟨⟩) rfl ?_
  change Returns (if engine.sha256 _ = engine.sha256 _ then _ else _) _ _
  rw [if_pos rfl]
  refine returns_pure ⟨hrestored.verified, hrestored.unfailed, ?_, ?_⟩
  · intro path hpath
    change (Files.write files (targetOf rjob f) _).lookup path = _
    rw [Files.lookup_write, if_neg (hpath f hf)]
    exact hrestored.untouched path hpath
  · intro g hg
    change (Files.write files (targetOf rjob f) _).lookup (targetOf rjob g) = _
    rw [Files.lookup_write]
    rcases List.mem_append.mp hg with hg | hg
    · rw [if_neg (hother g hg)]
      exact hrestored.contents g hg
    · cases List.mem_singleton.mp hg
      rw [if_pos rfl, hconcat, hcontent]

/-- All files of the version are restored. -/
theorem returns_runRestore {rjob : RestoreJob}
    (hversion : rjob.sourceVersionId = run.versionId)
    (hselection : rjob.fileSelection = .all)
    (hmode : WritesAll rjob.restoreMode)
    (hcuts : CutsEveryFile engine source job)
    (hdistinct : (source.found.map fun f => baseName f.path).Nodup)
    (hinj : Set.InjOn engine.blake3 (dataInvolved engine source job s))
    (hjson : engine.json.fromSlice
        (engine.json.toVec (sourceManifest engine source run job s)) =
      .ok (sourceManifest engine source run job s))
    (h : Committed engine source run job (dataInvolved engine source job s) s s₁)
    (havoids : AvoidsChunks engine source s rjob) :
    Returns (runRestore engine.toPlatform rjob) s₁.files
      (Restored source rjob s₁.files source.found) := by
  have hread : readManifest engine.root engine.json s₁.files
      rjob.sourceVersionId = .ok (sourceManifest engine source run job s) := by
    rw [hversion]
    exact readManifest_eq_ok h.manifest hjson
  have hplan : planFiles (sourceManifest engine source run job s)
      rjob.fileSelection = source.found.map fun f =>
        engine.completedEntry f (fileChunks engine source job f) := by
    rw [hselection]
    rfl
  refine returns_get_bind ?_
  refine returns_bind_of_run (run_ofResult_eq_ok.mpr ⟨hread, rfl⟩) ?_
  rw [hplan, List.foldlM_map]
  refine returns_foldlM source.found (Restored source rjob s₁.files)
    ⟨rfl, rfl, fun _ _ => rfl, by simp⟩ ?_
  intro done f rest r files hsplit hrestored
  exact returns_restoreFile hmode hcuts hdistinct hinj h havoids hrestored hsplit

/-- The restored files leave index and repository sound. -/
theorem sound_of_restored {rjob : RestoreJob} {D : Set Bytes}
    {r : RestoreResult} {files : Files}
    (h : Committed engine source run job D s s₁)
    (havoids : AvoidsChunks engine source s rjob)
    (hrestored : Restored source rjob s₁.files source.found r files) :
    Sound engine.toPlatform { s₁ with files := files } := by
  have hleads : ∀ location hash,
      (∀ f ∈ source.found,
        locationPath engine.root location ≠ targetOf rjob f) →
      LeadsTo engine.toPlatform D s₁.files location hash →
      LeadsTo engine.toPlatform Set.univ files location hash := by
    rintro location hash hne ⟨data, _, hfetch, hhash⟩
    refine ⟨data, Set.mem_univ data, ?_, hhash⟩
    rw [← hfetch]
    exact fetchChunk_congr (hrestored.untouched _ hne)
  constructor
  · intro hash hexists
    have hne : ∀ f ∈ source.found,
        chunkPath engine.root hash ≠ targetOf rjob f :=
      fun f hf => ((havoids f hf).1 hash).symm
    refine hleads _ hash hne (h.sound.stored hash ?_)
    rw [chunkExists] at hexists ⊢
    rw [← hrestored.untouched _ hne]
    exact hexists
  · intro hash entry hentry
    refine hleads _ hash ?_ (h.sound.indexed hash entry hentry)
    rw [h.located hash entry hentry]
    exact targetOf_ne_locationOf havoids hash

end RestoreVersion

section Main

variable (engine : BackupEngine) (source : Source) (run : Execution)
  (job : BackupJob) (s : AgentState) (rjob : RestoreJob)

/-- What is taken for granted about a backup and a restore of its version. -/
structure Assumed : Prop where
  codec : LawfulCodec engine.toPlatform
  cuts : CutsEveryFile engine source job
  sound : Sound engine.toPlatform s
  uncut : s.appendsLeft = none
  fresh : FreshVersion engine.root s run.versionId
  collisionFree :
    Set.InjOn engine.blake3 (dataInvolved engine source job s)
  json : engine.json.fromSlice
      (engine.json.toVec (sourceManifest engine source run job s)) =
    .ok (sourceManifest engine source run job s)
  distinct : (source.found.map fun f => baseName f.path).Nodup
  version : rjob.sourceVersionId = run.versionId
  selection : rjob.fileSelection = .all
  mode : WritesAll rjob.restoreMode

/-- The backup and then the restore return, every file is restored with its
bytes, all are verified, and index and repository are sound again. -/
def RestoresEveryFile : Prop :=
  Returns (engine.runBackup source run job) s (fun result s₁ =>
    result.versionId = some run.versionId ∧
    Returns (runRestore engine.toPlatform rjob) s₁.files (fun r files =>
      r.allVerified = true ∧
      (∀ f ∈ source.found,
        files.lookup (targetOf rjob f) = source.content f.path) ∧
      Sound engine.toPlatform { s₁ with files := files }))

/-- A full backup followed by a restore is the identity on file contents, if
the chunks to be written fit into memory and no file is restored onto a chunk
of the repository. -/
theorem restoresEveryFile_of_room
    (h : Assumed engine source run job s rjob)
    (hroom : ∀ f ∈ source.found, ∀ c ∈ fileChunks engine source job f,
      Room engine s c.data)
    (havoids : AvoidsChunks engine source s rjob) :
    RestoresEveryFile engine source run job s rjob := by
  refine returns_mono (returns_runBackup h.codec h.cuts
    (soundIn_dataInvolved h.sound) h.uncut h.fresh
    (fun f hf c hc => Or.inr ⟨f, hf, c, hc, rfl⟩) hroom) ?_
  rintro result s₁ ⟨hversion, hcommitted⟩
  refine ⟨hversion, returns_mono (returns_runRestore h.version h.selection h.mode
    h.cuts h.distinct h.collisionFree h.json hcommitted havoids) ?_⟩
  intro r files hrestored
  exact ⟨hrestored.verified, hrestored.contents,
    sound_of_restored hcommitted havoids hrestored⟩

end Main

section Example

/-- A machine without files. -/
def emptyMachine : AgentState where
  files := ∅
  index := ∅
  journal := none
  chunkIdsDrawn := 0
  appendsLeft := none

/-- Files of the given paths that all have the content `abc`. -/
def abcSource (paths : List String) : Source where
  found := paths.map fun path => exampleFile path 3
  content := fun path => if path ∈ paths then some abc else none
  totalFiles := paths.length

/-- A manifest that no backup has written. -/
def blankManifest : Manifest where
  versionId := ⟨exampleUuid 3⟩
  timestamp := exampleTime
  parentVersionId := none
  versionNumber := 0
  backupType := .full
  files := []
  chunkRefs := []
  hashes := {
    manifestHash := zeroDigest
    fileIndexHash := zeroDigest
    chunkIndexHash := zeroDigest
    repoHash := zeroDigest }
  chunkLocations := ∅

/-- An engine with the given memory limit whose JSON reads the given manifest. -/
def abcEngine (memoryLimit : Nat) (m : Manifest) : BackupEngine :=
  { exampleEngine (examplePlatform m) with memoryLimit := memoryLimit }

/-- The manifest of the files, which does not depend on what can be read. -/
def abcManifest (memoryLimit : Nat) (paths : List String) : Manifest :=
  sourceManifest (abcEngine memoryLimit blankManifest) (abcSource paths)
    (exampleExecution 4) exampleJob emptyMachine

/-- The engine that reads the manifest it writes for the files. -/
def abcReader (memoryLimit : Nat) (paths : List String) : BackupEngine :=
  abcEngine memoryLimit (abcManifest memoryLimit paths)

def abcRestore (target : String) : RestoreJob where
  sourceVersionId := (exampleExecution 4).versionId
  fileSelection := .all
  restoreMode := .newLocation
  targetLocation := target

theorem lawfulCodec_examplePlatform (m : Manifest) :
    LawfulCodec (examplePlatform m) where
  compress := by
    intro data
    refine ⟨_, rfl, ?_⟩
    by_cases hdata : data = abc
    · simp [examplePlatform, hdata]
    · have hframe : 0 :: data ≠ abcFrame := by
        intro h
        cases h
      simp [examplePlatform, hdata, hframe]
  encrypt := by
    intro plain chunkId
    refine ⟨_, rfl, ?_⟩
    by_cases hplain : plain = abcFrame ∧ chunkId = ⟨exampleUuid 0⟩
    · simp [examplePlatform, hplain]
    · simp only [examplePlatform, if_neg hplain,
        if_neg (wrapChunk_ne_abcEncrypted plain)]
      rfl

theorem content_abcSource {paths : List String} {f : FileEntry}
    (hf : f ∈ (abcSource paths).found) :
    (abcSource paths).content f.path = some abc ∧ f.size = 3 := by
  obtain ⟨path, hpath, rfl⟩ := List.mem_map.mp hf
  exact ⟨if_pos hpath, rfl⟩

theorem fileChunks_abcSource {memoryLimit : Nat} {m : Manifest}
    {paths : List String} {f : FileEntry} (hf : f ∈ (abcSource paths).found) :
    fileChunks (abcEngine memoryLimit m) (abcSource paths) exampleJob f =
      [{ offset := 0, data := abc }] := by
  obtain ⟨hcontent, hsize⟩ := content_abcSource hf
  simp only [fileChunks, hcontent, hsize]
  rfl

theorem dataInvolved_abcSource {memoryLimit : Nat} {m : Manifest}
    {paths : List String} :
    dataInvolved (abcEngine memoryLimit m) (abcSource paths) exampleJob
      emptyMachine ⊆ {abc} := by
  rintro data (⟨h, location, _, ⟨hexists, _⟩ | ⟨entry, hentry, _⟩⟩ |
    ⟨f, hf, c, hc, rfl⟩)
  · cases hexists
  · cases hentry
  · rw [fileChunks_abcSource hf] at hc
    cases List.mem_singleton.mp hc
    rfl

/-- Engines that hash, cut and write alike build the same manifest. -/
theorem sourceManifest_congr {engine engine' : BackupEngine}
    (hblake3 : engine'.blake3 = engine.blake3)
    (hsha256 : engine'.sha256 = engine.sha256)
    (hchunker : engine'.chunker = engine.chunker)
    (hjson : engine'.json.toVec = engine.json.toVec)
    (source : Source) (run : Execution) (job : BackupJob) (s : AgentState) :
    sourceManifest engine' source run job s =
      sourceManifest engine source run job s := by
  have hchunks : fileChunks engine' source job = fileChunks engine source job := by
    funext f
    simp only [fileChunks, hchunker]
  have hpair : locationPair engine' s = locationPair engine s := by
    funext c
    simp only [locationPair, hblake3]
  have href : chunkRef engine' = chunkRef engine := by
    funext v path c
    simp only [chunkRef, hblake3]
  simp only [sourceManifest, buildManifest, completedEntry, hchunks, hpair, href,
    hblake3, hsha256, hjson]

/-- What an engine can read does not matter for what it writes. -/
theorem sourceManifest_abcEngine (memoryLimit : Nat) (m : Manifest)
    (paths : List String) :
    sourceManifest (abcEngine memoryLimit m) (abcSource paths)
        (exampleExecution 4) exampleJob emptyMachine =
      abcManifest memoryLimit paths := by
  unfold abcManifest
  apply sourceManifest_congr
  · simp only [abcEngine, exampleEngine, examplePlatform]
  · simp only [abcEngine, exampleEngine, examplePlatform]
  · simp only [abcEngine, exampleEngine]
  · simp only [abcEngine, exampleEngine, examplePlatform, exampleJson]

/-- The assumptions hold for files of the content `abc` with different names
on an empty machine. -/
theorem assumed_abcReader (memoryLimit : Nat) {paths : List String}
    (target : String) (hdistinct : (paths.map baseName).Nodup) :
    Assumed (abcReader memoryLimit paths) (abcSource paths) (exampleExecution 4)
      exampleJob emptyMachine (abcRestore target) where
  codec := lawfulCodec_examplePlatform _
  cuts := by
    intro f hf
    obtain ⟨hcontent, hsize⟩ := content_abcSource hf
    refine ⟨abc, [{ offset := 0, data := abc }], hcontent, ?_, rfl⟩
    rw [hsize]
    rfl
  sound := by
    constructor
    · intro h hexists
      cases hexists
    · intro h entry hentry
      cases hentry
  uncut := rfl
  fresh := ⟨rfl, rfl⟩
  collisionFree := by
    intro x hx y hy _
    rw [Set.mem_singleton_iff.mp (dataInvolved_abcSource hx),
      Set.mem_singleton_iff.mp (dataInvolved_abcSource hy)]
  json := by
    rw [abcReader, sourceManifest_abcEngine]
    exact fromSlice_toVec_examplePlatform (abcManifest memoryLimit paths)
  distinct := by
    simpa [abcSource, exampleFile, Function.comp_def] using hdistinct
  version := rfl
  selection := rfl
  mode := Or.inr rfl

/-- What is written for `abc` has twelve bytes of ciphertext. -/
theorem length_ciphertext_abc {memoryLimit : Nat} {m : Manifest}
    {compressed : Bytes} {chunkId : ChunkId} {encrypted : EncryptedChunk}
    (hcompressed : (abcEngine memoryLimit m).compress abc = .ok compressed)
    (hencrypted : (abcEngine memoryLimit m).encryptChunk compressed chunkId =
      .ok encrypted) :
    encrypted.ciphertext.length = 12 := by
  simp only [abcEngine, exampleEngine, examplePlatform, ↓reduceIte,
    Except.ok.injEq] at hcompressed hencrypted
  subst hcompressed
  rw [← hencrypted]
  split
  · rfl
  · rfl

/-- The files fit into a memory budget of twelve bytes or more. -/
theorem room_abcReader {memoryLimit : Nat} (hlimit : 12 ≤ memoryLimit)
    {paths : List String} :
    ∀ f ∈ (abcSource paths).found,
      ∀ c ∈ fileChunks (abcReader memoryLimit paths) (abcSource paths)
        exampleJob f,
      Room (abcReader memoryLimit paths) emptyMachine c.data := by
  intro f hf c hc
  rw [abcReader, fileChunks_abcSource hf] at hc
  cases List.mem_singleton.mp hc
  intro _ _ compressed chunkId encrypted hcompressed hencrypted
  rw [length_ciphertext_abc hcompressed hencrypted]
  exact hlimit

/-- A file whose last letter is not that of a chunk file is no chunk file. -/
theorem avoidsChunks_abcReader {memoryLimit : Nat} {paths : List String}
    {target : String}
    (hends : ∀ path ∈ paths,
      (Path.join target (baseName path)).toList.getLast? ≠ some 'k') :
    AvoidsChunks (abcReader memoryLimit paths) (abcSource paths) emptyMachine
      (abcRestore target) := by
  intro f hf
  obtain ⟨path, hpath, rfl⟩ := List.mem_map.mp hf
  constructor
  · intro h heq
    apply hends path hpath
    obtain ⟨r, hr⟩ := exists_chunkPath_eq_append
      (abcReader memoryLimit paths).root h
    change targetOf (abcRestore target) (exampleFile path 3) = _ at heq
    have hjoin : Path.join target (baseName path) = r ++ ".chunk" :=
      heq.trans hr
    rw [hjoin, String.toList_append, List.getLast?_append]
    rfl
  · intro h entry hentry
    cases hentry

/-- Two files are backed up and restored. -/
theorem restoresEveryFile_abc :
    Assumed (abcReader 4294967296 ["/data/a", "/data/b"])
      (abcSource ["/data/a", "/data/b"]) (exampleExecution 4) exampleJob
      emptyMachine (abcRestore "/restore") ∧
    RestoresEveryFile (abcReader 4294967296 ["/data/a", "/data/b"])
      (abcSource ["/data/a", "/data/b"]) (exampleExecution 4) exampleJob
      emptyMachine (abcRestore "/restore") := by
  have hassumed : Assumed (abcReader 4294967296 ["/data/a", "/data/b"])
      (abcSource ["/data/a", "/data/b"]) (exampleExecution 4) exampleJob
      emptyMachine (abcRestore "/restore") :=
    assumed_abcReader 4294967296 "/restore" (by decide)
  exact ⟨hassumed, restoresEveryFile_of_room _ _ _ _ _ _ hassumed
    (room_abcReader (by decide)) (avoidsChunks_abcReader (by decide))⟩

/-- With less than twelve bytes of memory the backup of `abc` never ends. -/
theorem waitsForMemory_abc (m : Manifest) :
    outcome ((abcEngine 11 m).runBackup (abcSource ["/data/a"])
      (exampleExecution 4) exampleJob) emptyMachine =
      .error .waitsForMemory :=
  rfl

/-- A source file with the name of its own chunk file. -/
def chunkNamed : String :=
  "/data/6437b3ac38465133ffb63b75273a8db548c558465d79db03fd359c6cd5bd9d85.chunk"

/-- The file goes where its chunk lies if it is restored into the bucket. -/
theorem targetOf_chunkNamed :
    targetOf (abcRestore "/repo/chunks/64") (exampleFile chunkNamed 3) =
      chunkPath "/repo" abcHash := by
  decide +kernel

theorem root_abcReader (memoryLimit : Nat) (paths : List String) :
    (abcReader memoryLimit paths).root = "/repo" := by
  simp only [abcReader, abcEngine, exampleEngine, examplePlatform]

/-- A file of three bytes is no chunk. -/
theorem not_sound_of_lookup_abc {engine : BackupEngine} {s : AgentState}
    {h : ChunkHash}
    (hfile : s.files.lookup (chunkPath engine.root h) = some abc) :
    ¬ Sound engine.toPlatform s := by
  intro hsound
  have hexists : chunkExists engine.root s.files h := by
    rw [chunkExists, hfile]
    rfl
  obtain ⟨data, _, hfetch, _⟩ := hsound.stored h hexists
  unfold fetchChunk at hfetch
  have hread : readChunk engine.root s.files (chunkLocation h) =
      .error (.io "chunk data too short") := by
    unfold readChunk readFile
    change (match s.files.lookup (chunkPath engine.root h) with
      | none => _
      | some data => _) >>= _ = _
    rw [hfile]
    rfl
  rw [hread] at hfetch
  cases hfetch

/-- The two conditions are needed: a chunk that does not fit into the memory
budget, and a file restored onto its own chunk. -/
theorem restoresEveryFile_fails :
    (Assumed (abcReader 11 ["/data/a"]) (abcSource ["/data/a"])
        (exampleExecution 4) exampleJob emptyMachine (abcRestore "/restore") ∧
      ¬ RestoresEveryFile (abcReader 11 ["/data/a"]) (abcSource ["/data/a"])
        (exampleExecution 4) exampleJob emptyMachine (abcRestore "/restore")) ∧
    (Assumed (abcReader 4294967296 [chunkNamed]) (abcSource [chunkNamed])
        (exampleExecution 4) exampleJob emptyMachine
        (abcRestore "/repo/chunks/64") ∧
      ¬ RestoresEveryFile (abcReader 4294967296 [chunkNamed])
        (abcSource [chunkNamed]) (exampleExecution 4) exampleJob emptyMachine
        (abcRestore "/repo/chunks/64")) := by
  refine ⟨⟨assumed_abcReader 11 "/restore" (by decide), ?_⟩,
    ⟨assumed_abcReader 4294967296 "/repo/chunks/64" (by decide), ?_⟩⟩
  · intro h
    obtain ⟨result, houtcome, _⟩ := exists_of_returns h
    rw [abcReader, waitsForMemory_abc] at houtcome
    cases houtcome
  · rintro ⟨result, s₁, _, _, r, files, _, _, hcontents, hsound⟩
    have hf : exampleFile chunkNamed 3 ∈ (abcSource [chunkNamed]).found :=
      List.mem_singleton.mpr rfl
    have hfile := hcontents _ hf
    rw [targetOf_chunkNamed, (content_abcSource hf).1,
      ← root_abcReader 4294967296 [chunkNamed]] at hfile
    exact not_sound_of_lookup_abc (s := { s₁ with files := files })
      hfile hsound

end Example

end BackupRestore
end Agent
end HyperBackup
