import HyperBackup.Agent.Engine
import HyperBackup.Lib.CallTree

/-!
# Backups next to other work

`run_backup_concurrent` is the full backup with a lock, and with a list of the
chunks it has written.  When the repository reports that it is full, these
chunks are deleted again.  The engine is a tree of calls on the repository, the
dedup index and the journal, so that it can run against any repository.

After an error the index and the repository agree exactly if no chunk has been
deleted after the repository was full: the index keeps the entries of the
chunks that were rolled back.
-/

namespace HyperBackup
namespace Agent

open Lib CallTree

/-- The calls of the engine and of cleanup on a repository. -/
inductive RepoCall
  | acquireLock
  | chunkExists (hash : ChunkHash)
  | findChunk (hash : ChunkHash)
  | writeChunk (hash : ChunkHash) (encrypted : EncryptedChunk)
  | deleteChunk (location : ChunkLocation)
  | writeManifest (versionId : VersionId) (manifest : Manifest)

@[reducible] def RepoCall.Answer : RepoCall → Type
  | acquireLock => Except RepoError Unit
  | chunkExists _ => Except RepoError Bool
  | findChunk _ => Except RepoError ChunkLocation
  | writeChunk _ _ => Except RepoError ChunkLocation
  | deleteChunk _ => Except RepoError Unit
  | writeManifest _ _ => Except RepoError Unit

/-- The calls of the engine on its repository, its index and its journal.  The
local index never fails, and a failed append to the journal is ignored. -/
inductive EngineCall
  | repo (c : RepoCall)
  | batchLookup (hash : ChunkHash)
  | registerNew (hash : ChunkHash) (location : ChunkLocation)
  | addReferences (references : List ChunkReference)
  | appendJournal (entry : JournalEntry)

@[reducible] def EngineCall.Answer : EngineCall → Type
  | repo c => c.Answer
  | batchLookup _ => Option IndexEntry
  | registerNew _ _ => Unit
  | addReferences _ => Unit
  | appendJournal _ => Unit

abbrev ConcurrentM : Type → Type :=
  CallTree EngineCall.Answer Halt

-- The methods of the repository, the index and the journal.
namespace Call

abbrev acquireLock : ConcurrentM (Except RepoError Unit) :=
  perform (EngineCall.repo .acquireLock)

abbrev chunkExists (hash : ChunkHash) : ConcurrentM (Except RepoError Bool) :=
  perform (EngineCall.repo (.chunkExists hash))

abbrev findChunk (hash : ChunkHash) :
    ConcurrentM (Except RepoError ChunkLocation) :=
  perform (EngineCall.repo (.findChunk hash))

abbrev writeChunk (hash : ChunkHash) (encrypted : EncryptedChunk) :
    ConcurrentM (Except RepoError ChunkLocation) :=
  perform (EngineCall.repo (.writeChunk hash encrypted))

abbrev deleteChunk (location : ChunkLocation) :
    ConcurrentM (Except RepoError Unit) :=
  perform (EngineCall.repo (.deleteChunk location))

abbrev writeManifest (versionId : VersionId) (manifest : Manifest) :
    ConcurrentM (Except RepoError Unit) :=
  perform (EngineCall.repo (.writeManifest versionId manifest))

abbrev batchLookup (hash : ChunkHash) : ConcurrentM (Option IndexEntry) :=
  perform (EngineCall.batchLookup hash)

abbrev registerNew (hash : ChunkHash) (location : ChunkLocation) :
    ConcurrentM Unit :=
  perform (EngineCall.registerNew hash location)

abbrev addReferences (references : List ChunkReference) : ConcurrentM Unit :=
  perform (EngineCall.addReferences references)

abbrev appendJournal (entry : JournalEntry) : ConcurrentM Unit :=
  perform (EngineCall.appendJournal entry)

end Call

/-- The chunks that a run has written, in order. -/
structure StagingTracker where
  writtenChunks : List (ChunkHash × ChunkLocation)

namespace StagingTracker

def new : StagingTracker where
  writtenChunks := []

def track (staging : StagingTracker) (hash : ChunkHash)
    (location : ChunkLocation) : StagingTracker where
  writtenChunks := staging.writtenChunks ++ [(hash, location)]

/-- Delete what was written; the numbers of chunks deleted and not deleted. -/
def rollback (staging : StagingTracker) : ConcurrentM (Nat × Nat) :=
  staging.writtenChunks.foldlM (fun (deleted, failed) (_, location) => do
    match ← Call.deleteChunk location with
    | .ok () => return (deleted + 1, failed)
    | .error _ => return (deleted, failed + 1)) (0, 0)

end StagingTracker

def isStorageFull (e : RepoError) : Bool :=
  e = .full

/-- What a concurrent run has collected and written so far. -/
structure Work where
  progress : Progress
  staging : StagingTracker
  chunkIdsDrawn : Nat

def Work.start : Work where
  progress := .start
  staging := .new
  chunkIdsDrawn := 0

namespace BackupEngine

section Operations

variable (engine : BackupEngine)

def orRepoError {α : Type} (r : Except RepoError α) : ConcurrentM α :=
  ofExcept (fun e => .failed (.repo e)) r

/-- Compress and encrypt a chunk and write it to the repository.  When the
repository is full, everything written before is rolled back. -/
def writeNewChunkConcurrent (hash : ChunkHash) (data : Bytes) (work : Work) :
    ConcurrentM (ChunkLocation × Nat × Work) := do
  let compressed ← ofExcept (fun e => .failed (.compress e)) (engine.compress data)
  let chunkId := engine.newChunkId work.chunkIdsDrawn
  let encrypted ← ofExcept (fun e => .failed (.encrypt e))
    (engine.encryptChunk compressed chunkId)
  let size := encrypted.ciphertext.length
  if size ≠ 0 ∧ engine.memoryLimit < size then .fail .waitsForMemory
  else
    match ← Call.writeChunk hash encrypted with
    | .ok location =>
        Call.registerNew hash location
        return (location, size,
          { work with
            staging := work.staging.track hash location
            chunkIdsDrawn := work.chunkIdsDrawn + 1 })
    | .error e =>
        if isStorageFull e then
          let _ ← work.staging.rollback
          .fail (.failed (.repo e))
        else .fail (.failed (.repo e))

/-- See to it that a chunk is stored. -/
def storeChunkConcurrent (hash : ChunkHash) (data : Bytes) (work : Work) :
    ConcurrentM (ChunkLocation × Nat × Work) := do
  match ← Call.batchLookup hash with
  | some entry => return (entry.location, 0, work)
  | none =>
      let present ← orRepoError (← Call.chunkExists hash)
      if present then
        let location ← orRepoError (← Call.findChunk hash)
        Call.registerNew hash location
        return (location, 0, work)
      else engine.writeNewChunkConcurrent hash data work

/-- Store one chunk of a file and record it. -/
def processChunkConcurrent (versionId : VersionId) (path : String) (work : Work)
    (chunk : RawChunkData) : ConcurrentM Work := do
  let hash := engine.blake3 chunk.data
  let (location, stored, work) ← engine.storeChunkConcurrent hash chunk.data work
  let p := work.progress
  return { work with
    progress := { p with
      chunkLocations := p.chunkLocations.insert hash.toHex location
      dataStored := p.dataStored + stored
      chunkCount := p.chunkCount + 1
      chunkRefs := p.chunkRefs ++ [{
        hash := hash
        versionId := versionId
        filePath := path
        offset := chunk.offset }] } }

/-- One file of a concurrent backup; a file that cannot be opened is skipped. -/
def backupFileConcurrent (source : Source) (run : Execution) (job : BackupJob)
    (work : Work) (entry : FileEntry) : ConcurrentM Work :=
  match source.content entry.path with
  | none =>
      let p := work.progress
      return { work with
        progress := { p with skippedFiles := p.skippedFiles ++ [entry.path] } }
  | some content => do
      let chunks ← ofExcept (fun e => .failed (.chunk e))
        (engine.chunker (job.chunkingProfile.toChunkStrategy entry.size) content)
      let work ← chunks.foldlM
        (engine.processChunkConcurrent run.versionId entry.path) work
      let completed := engine.completedEntry entry chunks
      let p := work.progress
      Call.appendJournal
        (.fileProcessed job.jobId completed.path completed.chunks)
      return { work with
        progress := { p with
          files := p.files ++ [completed]
          fileCount := p.fileCount + 1
          dataProcessed :=
            p.dataProcessed + (chunks.flatMap RawChunkData.data).length } }

def runBackupConcurrent (source : Source) (run : Execution) (job : BackupJob) :
    ConcurrentM BackupResult := do
  let _ ← ofExcept (fun e : RepoError => Halt.failed
    (.failed ("failed to acquire backup lock: " ++ e.message)))
      (← Call.acquireLock)
  Call.appendJournal (.taskStarted job.jobId run.executionId run.startedAt)
  let work ← (scan source none).foldlM
    (engine.backupFileConcurrent source run job) .start
  let p := work.progress
  Call.addReferences p.chunkRefs
  let manifest := engine.fullManifest run p
  orRepoError (← Call.writeManifest run.versionId manifest)
  Call.appendJournal (.taskCompleted job.jobId run.versionId
    (backupResult run p run.journaledAfter))
  return backupResult run p run.endedAfter

end Operations

end BackupEngine

/-- A repository of any kind: how it serves calls, and at which locations a
chunk is stored.  Only a deletion takes a chunk away. -/
structure Repository (σ : Type) where
  serve : (c : RepoCall) → σ → c.Answer × σ
  Stored : σ → ChunkLocation → Prop
  stored_serve : ∀ c s location, (∀ l, c ≠ .deleteChunk l) →
    Stored s location → Stored (serve c s).2 location
  stored_found : ∀ hash s location, (serve (.findChunk hash) s).1 = .ok location →
    Stored (serve (.findChunk hash) s).2 location
  stored_written : ∀ hash encrypted s location,
    (serve (.writeChunk hash encrypted) s).1 = .ok location →
      Stored (serve (.writeChunk hash encrypted) s).2 location
  not_stored_deleted : ∀ l s, (serve (.deleteChunk l) s).1 = .ok () →
    ¬ Stored (serve (.deleteChunk l) s).2 l
  stored_of_deleted : ∀ l s location,
    Stored (serve (.deleteChunk l) s).2 location → Stored s location
  stored_not_deleted : ∀ l s location e, (serve (.deleteChunk l) s).1 = .error e →
    Stored s location → Stored (serve (.deleteChunk l) s).2 location

/-- The objects that a run works on. -/
structure Resources (σ : Type) where
  repo : σ
  index : LocalDedupIndex
  journal : Option Journal

abbrev Event : Type :=
  (c : EngineCall) × c.Answer

namespace BackupEngine

section Rollback

variable {σ α : Type} (engine : BackupEngine) (repository : Repository σ)

def serve : (c : EngineCall) → Resources σ → c.Answer × Resources σ
  | .repo c, s =>
      ((repository.serve c s.repo).1, { s with repo := (repository.serve c s.repo).2 })
  | .batchLookup hash, s => (s.index.lookup hash, s)
  | .registerNew hash location, s =>
      ((), { s with index := s.index.registerNew hash location })
  | .addReferences references, s =>
      ((), { s with index := s.index.addReferences references })
  | .appendJournal entry, s =>
      ((), { s with
        journal := s.journal.map fun journal =>
          journal.append engine.rotationSize (engine.recordLength entry) entry })

/-- Every chunk that the index knows is stored. -/
def Consistent (s : Resources σ) : Prop :=
  ∀ h entry, s.index.lookup h = some entry →
    repository.Stored s.repo entry.location

/-- A chunk was deleted after the repository had been full. -/
def DeletesAfterFull (log : List Event) : Prop :=
  ∃ before hash encrypted after location,
    log = before ++ ⟨.repo (.writeChunk hash encrypted), .error .full⟩ :: after ∧
      (⟨.repo (.deleteChunk location), .ok ()⟩ : Event) ∈ after

/-- No chunk was deleted. -/
def Undeleted (log : List Event) : Prop :=
  ∀ location, (⟨.repo (.deleteChunk location), .ok ()⟩ : Event) ∉ log

/-- The relation between a state with its record and the next one. -/
def Serves (g : Resources σ × List Event) (c : EngineCall) (r : c.Answer)
    (g' : Resources σ × List Event) : Prop :=
  r = (logged (serve engine repository) c g).1 ∧
    g' = (logged (serve engine repository) c g).2

/-- While a run has not failed: nothing has been deleted, and the index knows
where the chunks are that the run has written. -/
structure Running (work : Work) (g : Resources σ × List Event) : Prop where
  consistent : Consistent repository g.1
  undeleted : Undeleted g.2
  staged : ∀ c ∈ work.staging.writtenChunks,
    (g.1.index.lookup c.1).map IndexEntry.location = some c.2

/-- After a failure. -/
def Agrees (g : Resources σ × List Event) : Prop :=
  Consistent repository g.1 ↔ ¬ DeletesAfterFull g.2

variable {engine repository}

theorem Undeleted.not_deletesAfterFull {log : List Event} (h : Undeleted log) :
    ¬ DeletesAfterFull log := by
  rintro ⟨before, hash, encrypted, after, location, rfl, hmem⟩
  exact h location (List.mem_append_right _ (List.mem_cons_of_mem _ hmem))

theorem Running.agrees {work : Work} {g : Resources σ × List Event}
    (h : Running repository work g) : Agrees repository g :=
  iff_of_true h.consistent h.undeleted.not_deletesAfterFull

theorem undeleted_concat {log : List Event} {event : Event} (h : Undeleted log)
    (hevent : ∀ location, event ≠ ⟨.repo (.deleteChunk location), .ok ()⟩) :
    Undeleted (log ++ [event]) := by
  intro location hmem
  rcases List.mem_append.mp hmem with hmem | hmem
  · exact h location hmem
  · exact hevent location (List.mem_singleton.mp hmem).symm

variable {work work' : Work} {g : Resources σ × List Event}

/-- A call that neither deletes nor registers leaves a run in order. -/
theorem Running.serve (h : Running repository work g) (engine : BackupEngine)
    (c : EngineCall) (hdelete : ∀ l, c ≠ .repo (.deleteChunk l))
    (hregister : ∀ hash location, c ≠ .registerNew hash location) :
    Running repository work (logged (serve engine repository) c g).2 := by
  have hlog : Undeleted (logged (BackupEngine.serve engine repository) c g).2.2 := by
    refine undeleted_concat h.undeleted fun location heq => ?_
    exact hdelete location (congrArg Sigma.fst heq)
  cases c with
  | repo c =>
      refine ⟨fun hash entry hentry => ?_, hlog, h.staged⟩
      refine repository.stored_serve c _ _ ?_ (h.consistent hash entry hentry)
      intro l hl
      exact hdelete l (by rw [hl])
  | batchLookup hash =>
      exact ⟨h.consistent, hlog, h.staged⟩
  | registerNew hash location =>
      exact absurd rfl (hregister hash location)
  | addReferences references =>
      have hlocation := fun hash : ChunkHash =>
        LocalDedupIndex.location_lookup_addReferences references hash g.1.index
      refine ⟨fun hash entry hentry => ?_, hlog, fun c hc => ?_⟩
      · have hold : (g.1.index.lookup hash).map IndexEntry.location =
            some entry.location := by
          rw [← hlocation hash]
          exact congrArg (Option.map IndexEntry.location) hentry
        obtain ⟨old, hlookup, hsame⟩ := Option.map_eq_some_iff.mp hold
        rw [← hsame]
        exact h.consistent hash old hlookup
      · exact (hlocation c.1).trans (h.staged c hc)
  | appendJournal entry =>
      exact ⟨h.consistent, hlog, h.staged⟩

/-- A chunk that is stored may be registered, and tracked, if the index does
not know it yet. -/
theorem Running.registerNew {hash : ChunkHash} {location : ChunkLocation}
    (h : Running repository work g) (hnew : g.1.index.lookup hash = none)
    (hstored : repository.Stored g.1.repo location)
    (htracked : ∀ c ∈ work'.staging.writtenChunks,
      c ∈ work.staging.writtenChunks ∨ c = (hash, location)) :
    Running repository work'
      (logged (BackupEngine.serve engine repository)
        (.registerNew hash location) g).2 where
  consistent := by
    intro other entry hentry
    have hlookup := (LocalDedupIndex.lookup_registerNew g.1.index hash other
      location).symm.trans hentry
    by_cases hother : other = hash
    · rw [if_pos hother] at hlookup
      cases hlookup
      exact hstored
    · rw [if_neg hother] at hlookup
      exact h.consistent other entry hlookup
  undeleted := undeleted_concat h.undeleted (by
    intro l heq
    cases congrArg Sigma.fst heq)
  staged := by
    intro c hc
    have hlookup : ((g.1.index.registerNew hash location).lookup c.1).map
        IndexEntry.location = some c.2 := by
      rw [LocalDedupIndex.lookup_registerNew]
      rcases htracked c hc with hold | rfl
      · have hne : c.1 ≠ hash := by
          intro heq
          have hsome := h.staged c hold
          rw [heq, hnew] at hsome
          cases hsome
        rw [if_neg hne]
        exact h.staged c hold
      · simp
    exact hlookup

/-- How far a rollback has come: either no deletion has succeeded, or one of
the chunks that were written is gone. -/
structure RollingBack (repository : Repository σ) (work : Work)
    (g g' : Resources σ × List Event) (deletes : List Event) : Prop where
  index : g'.1.index = g.1.index
  log : g'.2 = g.2 ++ deletes
  state : (Consistent repository g'.1 ∧ Undeleted deletes) ∨
    ((∃ c ∈ work.staging.writtenChunks, ¬ repository.Stored g'.1.repo c.2) ∧
      ∃ location, (⟨.repo (.deleteChunk location), .ok ()⟩ : Event) ∈ deletes)

/-- One deletion of a rollback. -/
theorem RollingBack.deleteChunk {g' : Resources σ × List Event}
    {deletes : List Event} {c : ChunkHash × ChunkLocation}
    (h : RollingBack repository work g g' deletes)
    (hc : c ∈ work.staging.writtenChunks) :
    RollingBack repository work g
      (logged (BackupEngine.serve engine repository)
        (.repo (.deleteChunk c.2)) g').2
      (deletes ++ [⟨.repo (.deleteChunk c.2),
        (repository.serve (.deleteChunk c.2) g'.1.repo).1⟩]) where
  index := h.index
  log := by
    rw [← List.append_assoc, ← h.log]
    rfl
  state := by
    cases hanswer : (repository.serve (.deleteChunk c.2) g'.1.repo).1 with
    | ok u =>
        refine Or.inr ⟨⟨c, hc, ?_⟩, c.2, List.mem_append_right _ ?_⟩
        · exact repository.not_stored_deleted c.2 g'.1.repo hanswer
        · exact List.mem_singleton_self _
    | error e =>
        rcases h.state with ⟨hconsistent, hnone⟩ | ⟨⟨gone, hgone, hnot⟩, l, hl⟩
        · refine Or.inl ⟨fun hash entry hentry => ?_, ?_⟩
          · exact repository.stored_not_deleted _ _ _ _ hanswer
              (hconsistent hash entry hentry)
          · refine undeleted_concat hnone fun location heq => ?_
            cases heq
        · refine Or.inr ⟨⟨gone, hgone, fun hstored => hnot ?_⟩, l, ?_⟩
          · exact repository.stored_of_deleted _ _ _ hstored
          · exact List.mem_append_left _ hl

/-- A rollback leaves a chunk in the index that is not stored, unless every
deletion fails. -/
theorem RollingBack.agrees {g' : Resources σ × List Event}
    {deletes before : List Event} {hash : ChunkHash} {encrypted : EncryptedChunk}
    (hrunning : Running repository work g)
    (hfull : g.2 = before ++
      [⟨.repo (.writeChunk hash encrypted), .error .full⟩])
    (h : RollingBack repository work g g' deletes) : Agrees repository g' := by
  rcases h.state with ⟨hconsistent, hnone⟩ | ⟨⟨c, hc, hnot⟩, location, hmem⟩
  · refine iff_of_true hconsistent (Undeleted.not_deletesAfterFull ?_)
    intro location hmem
    rw [h.log] at hmem
    rcases List.mem_append.mp hmem with hold | hdeleted
    · exact hrunning.undeleted location hold
    · exact hnone location hdeleted
  · refine iff_of_false (fun hconsistent => hnot ?_) (not_not.mpr ?_)
    · obtain ⟨entry, hentry, hlocation⟩ :=
        Option.map_eq_some_iff.mp (hrunning.staged c hc)
      rw [← hlocation]
      exact hconsistent c.1 entry (by rw [h.index, hentry])
    · refine ⟨before, hash, encrypted, deletes, location, ?_, hmem⟩
      rw [h.log, hfull, List.append_assoc]
      rfl

theorem meets_rollback {hash : ChunkHash} {encrypted : EncryptedChunk}
    {before : List Event} {e : Halt} {Q : α → Resources σ × List Event → Prop}
    (h : Running repository work g)
    (hfull : g.2 = before ++
      [⟨.repo (.writeChunk hash encrypted), .error .full⟩]) :
    (work.staging.rollback >>= fun _ => (.fail e : ConcurrentM α)).Meets
      (fun _ _ => True) (Serves engine repository) g
      Q (fun _ g' => Agrees repository g') := by
  refine meets_bind (meets_foldlM
    (I := fun _ g' => ∃ deletes, RollingBack repository work g g' deletes)
    ?_ ?_) ?_
  · exact ⟨[], rfl, (List.append_nil _).symm, Or.inl ⟨h.consistent, nofun⟩⟩
  · rintro ⟨deleted, failed⟩ g' c hc ⟨deletes, hrolling⟩
    refine meets_perform trivial ?_
    rintro r g'' ⟨rfl, rfl⟩
    have hnext : RollingBack repository work g
        (logged (BackupEngine.serve engine repository)
          (.repo (.deleteChunk c.2)) g').2 _ := hrolling.deleteChunk hc
    split
    · exact ⟨_, hnext⟩
    · exact ⟨_, hnext⟩
  · rintro _ g' ⟨deletes, hrolling⟩
    exact hrolling.agrees h hfull

/-- Writing a chunk keeps a run in order, or fails with index and repository as
the record says. -/
theorem meets_writeNewChunkConcurrent {hash : ChunkHash} (data : Bytes)
    (h : Running repository work g) (hnew : g.1.index.lookup hash = none) :
    (engine.writeNewChunkConcurrent hash data work).Meets
      (fun _ _ => True) (Serves engine repository) g
      (fun r g' => Running repository r.2.2 g')
      (fun _ g' => Agrees repository g') := by
  refine meets_ofExcept (fun compressed _ => ?_) (fun _ _ => h.agrees)
  refine meets_ofExcept (fun encrypted _ => ?_) (fun _ _ => h.agrees)
  simp only
  split
  · exact h.agrees
  · refine meets_perform trivial ?_
    rintro r g' ⟨rfl, rfl⟩
    have hwritten := h.serve engine (.repo (.writeChunk hash encrypted))
      nofun nofun
    split
    · rename_i location hanswer
      refine meets_perform trivial ?_
      rintro _ g' ⟨rfl, rfl⟩
      refine hwritten.registerNew hnew
        (repository.stored_written _ _ _ _ hanswer) ?_
      intro c hc
      exact (List.mem_append.mp hc).imp_right List.mem_singleton.mp
    · rename_i e hanswer
      split
      · rename_i hfull
        obtain rfl : e = .full := of_decide_eq_true hfull
        have hlog : (logged (BackupEngine.serve engine repository)
            (.repo (.writeChunk hash encrypted)) g).2.2 =
              g.2 ++ [⟨.repo (.writeChunk hash encrypted), .error .full⟩] := by
          rw [← hanswer]
          rfl
        exact meets_rollback hwritten hlog
      · exact hwritten.agrees

theorem meets_storeChunkConcurrent (hash : ChunkHash) (data : Bytes)
    (h : Running repository work g) :
    (engine.storeChunkConcurrent hash data work).Meets
      (fun _ _ => True) (Serves engine repository) g
      (fun r g' => Running repository r.2.2 g')
      (fun _ g' => Agrees repository g') := by
  refine meets_perform trivial ?_
  rintro r g₁ ⟨rfl, rfl⟩
  have h₁ := h.serve engine (.batchLookup hash) nofun nofun
  split
  · exact h₁
  · rename_i hnew
    refine meets_perform trivial ?_
    rintro r g₂ ⟨rfl, rfl⟩
    have h₂ := h₁.serve engine (.repo (.chunkExists hash)) nofun nofun
    refine meets_ofExcept (fun present _ => ?_) (fun _ _ => h₂.agrees)
    split
    · refine meets_perform trivial ?_
      rintro r g₃ ⟨rfl, rfl⟩
      have h₃ := h₂.serve engine (.repo (.findChunk hash)) nofun nofun
      refine meets_ofExcept (fun location hfound => ?_) (fun _ _ => h₃.agrees)
      refine meets_perform trivial ?_
      rintro _ g₄ ⟨rfl, rfl⟩
      refine h₃.registerNew hnew ?_ (fun c hc => Or.inl hc)
      exact repository.stored_found _ _ _ hfound
    · exact meets_writeNewChunkConcurrent data h₂ hnew

theorem meets_processChunkConcurrent (versionId : VersionId) (path : String)
    (chunk : RawChunkData) (h : Running repository work g) :
    (engine.processChunkConcurrent versionId path work chunk).Meets
      (fun _ _ => True) (Serves engine repository) g
      (fun work' g' => Running repository work' g')
      (fun _ g' => Agrees repository g') := by
  refine meets_bind
    (meets_storeChunkConcurrent (engine.blake3 chunk.data) chunk.data h) ?_
  rintro ⟨location, stored, work'⟩ g' h'
  exact ⟨h'.consistent, h'.undeleted, h'.staged⟩

theorem meets_backupFileConcurrent (source : Source) (run : Execution)
    (job : BackupJob) (entry : FileEntry) (h : Running repository work g) :
    (engine.backupFileConcurrent source run job work entry).Meets
      (fun _ _ => True) (Serves engine repository) g
      (fun work' g' => Running repository work' g')
      (fun _ g' => Agrees repository g') := by
  rw [backupFileConcurrent]
  split
  · exact ⟨h.consistent, h.undeleted, h.staged⟩
  · refine meets_ofExcept (fun chunks _ => ?_) (fun _ _ => h.agrees)
    refine meets_bind (meets_foldlM
      (I := fun work' g' => Running repository work' g') h ?_) ?_
    · intro work' g' chunk _ h'
      exact meets_processChunkConcurrent run.versionId entry.path chunk h'
    · intro work' g' h'
      refine meets_perform trivial ?_
      rintro _ g'' ⟨rfl, rfl⟩
      have h'' := h'.serve engine (.appendJournal (.fileProcessed job.jobId
        (engine.completedEntry entry chunks).path
        (engine.completedEntry entry chunks).chunks)) nofun nofun
      exact ⟨h''.consistent, h''.undeleted, h''.staged⟩

/-- A run that fails leaves index and repository as the record says. -/
theorem meets_runBackupConcurrent (source : Source) (run : Execution)
    (job : BackupJob) (h : Running repository .start g) :
    (engine.runBackupConcurrent source run job).Meets
      (fun _ _ => True) (Serves engine repository) g
      (fun _ _ => True) (fun _ g' => Agrees repository g') := by
  refine meets_perform trivial ?_
  rintro r g₁ ⟨rfl, rfl⟩
  have h₁ := h.serve engine (.repo .acquireLock) nofun nofun
  refine meets_ofExcept (fun _ _ => ?_) (fun _ _ => h₁.agrees)
  refine meets_perform trivial ?_
  rintro _ g₂ ⟨rfl, rfl⟩
  have h₂ := h₁.serve engine (.appendJournal
    (.taskStarted job.jobId run.executionId run.startedAt)) nofun nofun
  refine meets_bind (meets_foldlM
    (I := fun work' g' => Running repository work' g') h₂ ?_) ?_
  · intro work' g' entry _ h'
    exact meets_backupFileConcurrent source run job entry h'
  · intro work' g₃ h₃
    refine meets_perform trivial ?_
    rintro _ g₄ ⟨rfl, rfl⟩
    have h₄ := h₃.serve engine (.addReferences work'.progress.chunkRefs)
      nofun nofun
    refine meets_perform trivial ?_
    rintro r g₅ ⟨rfl, rfl⟩
    have h₅ := h₄.serve engine (.repo (.writeManifest run.versionId
      (engine.fullManifest run work'.progress))) nofun nofun
    refine meets_ofExcept (fun _ _ => ?_) (fun _ _ => h₅.agrees)
    exact meets_perform trivial fun _ _ _ => trivial

/-- What a run ends with, what it leaves, and the record of its calls. -/
def recordedRun (engine : BackupEngine) (repository : Repository σ)
    (source : Source) (run : Execution) (job : BackupJob) (s : Resources σ) :
    Except Halt BackupResult × Resources σ × List Event :=
  exec (logged (BackupEngine.serve engine repository))
    (engine.runBackupConcurrent source run job) (s, [])

/-- When a run has failed, every chunk that the index knows is stored iff no
chunk was deleted after the repository had been full. -/
theorem consistent_after_failure_iff (engine : BackupEngine)
    (repository : Repository σ) (source : Source) (run : Execution)
    (job : BackupJob) (s : Resources σ) (error : EngineError)
    (hstart : Consistent repository s)
    (hfailed : (engine.recordedRun repository source run job s).1 =
      .error (.failed error)) :
    Consistent repository (engine.recordedRun repository source run job s).2.1 ↔
      ¬ DeletesAfterFull
        (engine.recordedRun repository source run job s).2.2 := by
  have hrunning : Running repository .start (s, []) := ⟨hstart, nofun, nofun⟩
  have hmeets : (engine.runBackupConcurrent source run job).Meets
      (fun _ _ => True) (Serves engine repository) (s, [])
      (fun _ _ => True) (fun _ g' => Agrees repository g') :=
    meets_runBackupConcurrent source run job hrunning
  exact (meets_exec (fun _ _ => ⟨rfl, rfl⟩) hmeets).2 _ hfailed

end Rollback

section Example

/-- A repository that takes a number of chunks and is full then. -/
def quotaRepository (capacity : Nat) :
    Repository (HashMap ChunkLocation EncryptedChunk) where
  serve
    | .acquireLock, s => (.ok (), s)
    | .chunkExists hash, s => (.ok (s.lookup (chunkLocation hash)).isSome, s)
    | .findChunk hash, s =>
        (if (s.lookup (chunkLocation hash)).isSome then .ok (chunkLocation hash)
          else .error (.failed "chunk not found"), s)
    | .writeChunk hash encrypted, s =>
        if capacity ≤ s.entries.length then (.error .full, s)
        else (.ok (chunkLocation hash), s.insert (chunkLocation hash) encrypted)
    | .deleteChunk location, s => (.ok (), s.erase location)
    | .writeManifest _ _, s => (.ok (), s)
  Stored s location := (s.lookup location).isSome
  stored_serve := by
    intro c s location hdelete hstored
    cases c with
    | writeChunk hash encrypted =>
        simp only
        split
        · exact hstored
        · simp only [HashMap.lookup_insert_of]
          split
          · rfl
          · exact hstored
    | deleteChunk l =>
        exact absurd rfl (hdelete l)
    | _ => exact hstored
  stored_found := by
    intro hash s location hfound
    simp only at hfound
    split at hfound
    · rename_i hsome
      cases hfound
      exact hsome
    · cases hfound
  stored_written := by
    intro hash encrypted s location hwritten
    by_cases hfull : capacity ≤ s.entries.length
    · simp only [if_pos hfull] at hwritten
      cases hwritten
    · simp only [if_neg hfull] at hwritten ⊢
      cases hwritten
      simp
  not_stored_deleted := by
    intro l s _
    simp
  stored_of_deleted := by
    intro l s location hstored
    simp only [HashMap.lookup_erase_of] at hstored
    split at hstored
    · cases hstored
    · exact hstored
  stored_not_deleted := by
    intro l s location e hanswer
    cases hanswer

/-- Hashing and compression as they are on `abc` and `abd`; no encryption. -/
def twoChunkEngine : BackupEngine :=
  exampleEngine
    { root := "/repo"
      json :=
        { toVec := Json.manifestBytes
          fromSlice := fun _ => .error "expected value at line 1 column 1" }
      blake3 := fun data => if data = abc then abcHash else abdHash
      sha256 := Sha256.hash
      compress := fun data => .ok (if data = abc then abcFrame else abdFrame)
      decompress := fun data => .ok (if data = abcFrame then abc else abd)
      encryptChunk := fun plain _ => .ok (wrapChunk plain)
      decryptChunk := fun encrypted => .ok encrypted.ciphertext }

/-- Two files of one chunk each. -/
def twoChunkSource : Source where
  found := [exampleFile "/data/a" 3, exampleFile "/data/b" 3]
  content := fun path => some (if path = "/data/a" then abc else abd)
  totalFiles := 2

/-- Nothing is stored and nothing is known. -/
def emptyResources : Resources (HashMap ChunkLocation EncryptedChunk) where
  repo := ∅
  index := ∅
  journal := none

/-- The second chunk finds a repository for one chunk full. -/
theorem quotaRun_failed :
    (twoChunkEngine.recordedRun (quotaRepository 1) twoChunkSource
      (exampleExecution 3) exampleJob emptyResources).1 =
        .error (.failed (.repo .full)) := by
  rfl

theorem consistent_emptyResources (capacity : Nat) :
    Consistent (quotaRepository capacity) emptyResources := by
  intro h entry hentry
  cases hentry

theorem consistent_after_quotaRun_iff :
    Consistent (quotaRepository 1)
        (twoChunkEngine.recordedRun (quotaRepository 1) twoChunkSource
          (exampleExecution 3) exampleJob emptyResources).2.1 ↔
      ¬ DeletesAfterFull
        (twoChunkEngine.recordedRun (quotaRepository 1) twoChunkSource
          (exampleExecution 3) exampleJob emptyResources).2.2 :=
  consistent_after_failure_iff twoChunkEngine (quotaRepository 1) twoChunkSource
    (exampleExecution 3) exampleJob emptyResources (.repo .full)
    (consistent_emptyResources 1) quotaRun_failed

/-- After the failure the index still knows the first chunk, which is gone. -/
theorem not_consistent_after_quotaRun :
    Consistent (quotaRepository 1) emptyResources ∧
      (twoChunkEngine.recordedRun (quotaRepository 1) twoChunkSource
        (exampleExecution 3) exampleJob emptyResources).1 =
          .error (.failed (.repo .full)) ∧
      ¬ Consistent (quotaRepository 1)
        (twoChunkEngine.recordedRun (quotaRepository 1) twoChunkSource
          (exampleExecution 3) exampleJob emptyResources).2.1 := by
  refine ⟨consistent_emptyResources 1, quotaRun_failed, fun hconsistent => ?_⟩
  have hknown : (twoChunkEngine.recordedRun (quotaRepository 1) twoChunkSource
      (exampleExecution 3) exampleJob emptyResources).2.1.index.lookup abcHash =
        some { location := chunkLocation abcHash, referenceCount := 0 } := by
    rfl
  have hgone : (twoChunkEngine.recordedRun (quotaRepository 1) twoChunkSource
      (exampleExecution 3) exampleJob emptyResources).2.1.repo.lookup
        (chunkLocation abcHash) = none := by
    rfl
  have hstored : (AList.lookup (chunkLocation abcHash)
      (twoChunkEngine.recordedRun (quotaRepository 1) twoChunkSource
        (exampleExecution 3) exampleJob emptyResources).2.1.repo).isSome :=
    hconsistent abcHash _ hknown
  rw [hgone] at hstored
  cases hstored

end Example

end BackupEngine

end Agent
end HyperBackup
