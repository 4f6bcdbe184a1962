import HyperBackup.Agent.Cleanup
import HyperBackup.Agent.Concurrent

/-!
# A backup and a cleanup at the same time

Both begin with `acquire_lock`, but every lock is a file of its own, so the
lock excludes nobody: the calls of a backup and of a cleanup on one local
repository interleave freely.

The backup is its tree of calls.  The cleanup goes through its phases: it reads
the manifests, fixes the list of orphaned chunks and then deletes them one by
one.  `cleanup_alone` says that its steps in a row are an `execute`; for the
backup this is `CallTree.exists_iterate_step`.

A chunk is taken by the backup when the index knows it, when it is found in the
repository or when it is written.  As long as no chunk is taken that is on the
list, and no chunk gets onto the list that is taken or needed, every chunk of
every remaining version is there, in every state reached.
-/

namespace HyperBackup
namespace Agent

open Lib CallTree

namespace LocalRepository

/-- How the repository of a process serves a call.  Each process leaves its own
lock file. -/
def serve (root : String) (json : ManifestJson) (lockId : Uuid)
    (lockText : Bytes) : (c : RepoCall) → Files → c.Answer × Files
  | .acquireLock, files => (.ok (), acquireLock root lockId lockText files)
  | .chunkExists hash, files => (.ok (chunkExists root files hash), files)
  | .findChunk hash, files => (findChunk root files hash, files)
  | .writeChunk hash encrypted, files =>
      (.ok (writeChunk root hash encrypted files).1,
        (writeChunk root hash encrypted files).2)
  | .deleteChunk location, files => (.ok (), deleteChunk root location files)
  | .writeManifest versionId manifest, files =>
      (.ok (), writeManifest root json versionId manifest files)

/-- The local repository is a repository in the sense of the engine. -/
def repository (root : String) (json : ManifestJson) (lockId : Uuid)
    (lockText : Bytes) : Repository Files where
  serve := serve root json lockId lockText
  Stored files location :=
    ∃ h, location = chunkLocation h ∧ chunkExists root files h
  stored_serve := by
    rintro c files location hdelete ⟨h, rfl, hexists⟩
    refine ⟨h, rfl, ?_⟩
    cases c with
    | acquireLock =>
        exact (CleanupExecutor.chunkExists_acquireLock ..).trans hexists
    | writeChunk hash encrypted =>
        simp only [serve, chunkExists_writeChunk, hexists, Bool.or_true]
    | deleteChunk l =>
        exact absurd rfl (hdelete l)
    | writeManifest v m =>
        exact (chunkExists_writeManifest h).trans hexists
    | _ => exact hexists
  stored_found := by
    intro hash files location hfound
    obtain ⟨rfl, hexists⟩ := findChunk_eq_ok hfound
    exact ⟨hash, rfl, hexists⟩
  stored_written := by
    intro hash encrypted files location hwritten
    cases hwritten
    refine ⟨hash, rfl, ?_⟩
    simp only [serve, chunkExists_writeChunk, decide_true, Bool.true_or]
  not_stored_deleted := by
    rintro l files _ ⟨h, rfl, hexists⟩
    simp only [serve, chunkExists_deleteChunk] at hexists
    simp at hexists
  stored_of_deleted := by
    rintro l files location ⟨h, rfl, hexists⟩
    exact ⟨h, rfl, chunkExists_of_deleteChunk hexists⟩
  stored_not_deleted := by
    intro l files location e hanswer
    cases hanswer

end LocalRepository

namespace BackupRace

open LocalRepository CleanupExecutor

/-- The next call of an `execute`, with what it has collected. -/
inductive CleanupPc
  | acquireLock
  | readDeleted (todo : List VersionId) (read : Nat)
      (chunksInDeleted : List ChunkHash)
  | readKept (todo : List VersionId) (read : Nat)
      (chunksInDeleted remainingChunks : List ChunkHash)
  | findChunk (todo reclaimed : List ChunkHash)
  | deleteChunk (hash : ChunkHash) (location : ChunkLocation)
      (todo reclaimed : List ChunkHash)
  | done (result : CleanupResult)
deriving DecidableEq

/-- The orphaned chunks that are still to be deleted. -/
def CleanupPc.pending : CleanupPc → List ChunkHash
  | .findChunk todo _ => todo
  | .deleteChunk hash _ todo _ => hash :: todo
  | _ => []

/-- The objects of the engine, what is left of the backup, the chunks it has
taken, and the state of the cleanup. -/
structure Config where
  shared : Resources Files
  backup : ConcurrentM BackupResult
  taken : List ChunkHash
  cleanup : CleanupPc

/-- Whose turn it is. -/
inductive Turn
  | backup
  | cleanup
deriving DecidableEq

/-- The chunks that a call takes. -/
def takes : (c : EngineCall) → c.Answer → List ChunkHash
  | .batchLookup hash, some _ => [hash]
  | .repo (.findChunk hash), .ok _ => [hash]
  | .repo (.writeChunk hash _), .ok _ => [hash]
  | _, _ => []

section Steps

/-- A backup engine and a cleanup of one local repository. -/
structure Parties where
  engine : BackupEngine
  lockId : Uuid
  lockText : Bytes
  executor : Executor
  decision : RetentionDecision

variable (parties : Parties)

/-- The engine of the backup works on the repository of the cleanup. -/
def Parties.serve (c : EngineCall) (s : Resources Files) :
    c.Answer × Resources Files :=
  parties.engine.serve (repository parties.executor.root parties.executor.json
    parties.lockId parties.lockText) c s

def stepBackup (cfg : Config) : Config :=
  match cfg.backup with
  | .call c next =>
      { cfg with
        shared := (parties.serve c cfg.shared).2
        backup := next (parties.serve c cfg.shared).1
        taken := cfg.taken ++ takes c (parties.serve c cfg.shared).1 }
  | _ => cfg

def stepCleanup (files : Files) : CleanupPc → Files × CleanupPc
  | .acquireLock =>
      (acquireLock parties.executor.root parties.executor.lockId
          parties.executor.lockText files,
        .readDeleted (toDelete parties.executor parties.decision) 0 [])
  | .readDeleted [] read chunksInDeleted =>
      (files, .readKept parties.decision.keep read chunksInDeleted [])
  | .readDeleted (vid :: todo) read chunksInDeleted =>
      (files, .readDeleted todo (read + 1)
        (chunksInDeleted ++ readChunkRefs parties.executor files vid read))
  | .readKept [] _ chunksInDeleted remainingChunks =>
      (files, .findChunk ((parties.executor.order.arrange
        chunksInDeleted.dedup).filter fun h => h ∉ remainingChunks) [])
  | .readKept (vid :: todo) read chunksInDeleted remainingChunks =>
      (files, .readKept todo (read + 1) chunksInDeleted
        (remainingChunks ++ readChunkRefs parties.executor files vid read))
  | .findChunk [] reclaimed =>
      (files, .done
        { deletedVersions := toDelete parties.executor parties.decision
          reclaimedChunks := reclaimed
          skippedInUse := skipped parties.executor parties.decision })
  | .findChunk (hash :: todo) reclaimed =>
      match findChunk parties.executor.root files hash with
      | .ok location => (files, .deleteChunk hash location todo reclaimed)
      | .error _ => (files, .findChunk todo reclaimed)
  | .deleteChunk hash location todo reclaimed =>
      (deleteChunk parties.executor.root location files,
        .findChunk todo (reclaimed ++ [hash]))
  | .done result => (files, .done result)

def step (cfg : Config) : Turn → Config
  | .backup => stepBackup parties cfg
  | .cleanup =>
      { cfg with
        shared := { cfg.shared with
          repo := (stepCleanup parties cfg.shared.repo cfg.cleanup).1 }
        cleanup := (stepCleanup parties cfg.shared.repo cfg.cleanup).2 }

def run (cfg : Config) (schedule : List Turn) : Config :=
  schedule.foldl (step parties) cfg

/-- Both calls are about to begin. -/
def start (s : Resources Files) (source : Source) (execution : Execution)
    (job : BackupJob) : Config where
  shared := s
  backup := parties.engine.runBackupConcurrent source execution job
  taken := []
  cleanup := .acquireLock

/-- JSON reads back no reference that was not written. -/
def KeepsRefs (json : ManifestJson) : Prop :=
  ∀ m m', json.fromSlice (json.toVec m) = .ok m' →
    ∀ ref ∈ m'.chunkRefs, ref ∈ m.chunkRefs

/-- Every chunk of every version that is not deleted is there. -/
def Complete (files : Files) : Prop :=
  ∀ h, Needed parties.executor parties.decision files h →
    chunkExists parties.executor.root files h

/-- The backup takes no chunk that the cleanup is about to delete, and none
whose file is missing; the cleanup puts no chunk on its list that the backup
has taken or that a version needs. -/
def Undisturbed (cfg : Config) : Turn → Prop
  | .backup => ∀ c next, cfg.backup = .call c next →
      ∀ h ∈ takes c (parties.serve c cfg.shared).1,
        h ∉ cfg.cleanup.pending ∧
          (c = .batchLookup h →
            chunkExists parties.executor.root cfg.shared.repo h)
  | .cleanup => ∀ read chunksInDeleted remainingChunks,
      cfg.cleanup = .readKept [] read chunksInDeleted remainingChunks →
        ∀ h ∈ chunksInDeleted, h ∉ remainingChunks →
          h ∉ cfg.taken ∧
            ¬ Needed parties.executor parties.decision cfg.shared.repo h

def UndisturbedRun (cfg : Config) : List Turn → Prop
  | [] => True
  | turn :: schedule =>
      Undisturbed parties cfg turn ∧
        UndisturbedRun (step parties cfg turn) schedule

end Steps

section Protocol

/-- A call that the backup may make: it deletes nothing, and it commits only
chunks that it has taken. -/
def Allowed (taken : List ChunkHash) : EngineCall → Prop
  | .repo (.writeManifest _ manifest) =>
      ∀ ref ∈ manifest.chunkRefs, ref.hash ∈ taken
  | .repo (.deleteChunk _) => False
  | _ => True

/-- A local repository accepts every chunk. -/
def Accepted : (c : EngineCall) → c.Answer → Prop
  | .repo (.writeChunk _ _), .error _ => False
  | _, _ => True

/-- What a call makes of the chunks taken. -/
def Takes (taken : List ChunkHash) (c : EngineCall) (r : c.Answer)
    (taken' : List ChunkHash) : Prop :=
  taken' = taken ++ takes c r ∧ Accepted c r

variable {engine : BackupEngine} {taken : List ChunkHash} {work : Work}

/-- Every chunk that is recorded has been taken. -/
def Recorded (work : Work) (taken : List ChunkHash) : Prop :=
  ∀ ref ∈ work.progress.chunkRefs, ref.hash ∈ taken

theorem meets_storeChunkConcurrent (hash : ChunkHash) (data : Bytes)
    (h : Recorded work taken) :
    (engine.storeChunkConcurrent hash data work).Meets Allowed Takes taken
      (fun r taken' => Recorded r.2.2 taken' ∧ hash ∈ taken')
      (fun _ _ => True) := by
  refine meets_perform trivial ?_
  rintro (_ | entry) _ ⟨rfl, _⟩
  · refine meets_perform trivial ?_
    rintro r _ ⟨rfl, _⟩
    refine meets_ofExcept (fun present _ => ?_) (fun _ _ => trivial)
    split
    · refine meets_perform trivial ?_
      rintro r _ ⟨rfl, _⟩
      refine meets_ofExcept (fun location hfound => ?_) (fun _ _ => trivial)
      refine meets_perform trivial ?_
      rintro _ _ ⟨rfl, _⟩
      rw [hfound]
      refine ⟨fun ref href => ?_, ?_⟩
      · simp [h ref href]
      · simp [takes]
    · refine meets_ofExcept (fun compressed _ => ?_) (fun _ _ => trivial)
      refine meets_ofExcept (fun encrypted _ => ?_) (fun _ _ => trivial)
      simp only
      split
      · trivial
      · refine meets_perform trivial ?_
        rintro (e | location) _ ⟨rfl, haccepted⟩
        · exact haccepted.elim
        · refine meets_perform trivial ?_
          rintro _ _ ⟨rfl, _⟩
          refine ⟨fun ref href => ?_, ?_⟩
          · have hold := h ref href
            simp [hold]
          · simp [takes]
  · refine ⟨fun ref href => ?_, ?_⟩
    · simp [h ref href]
    · simp [takes]

theorem meets_processChunkConcurrent (versionId : VersionId) (path : String)
    (chunk : RawChunkData) (h : Recorded work taken) :
    (engine.processChunkConcurrent versionId path work chunk).Meets Allowed Takes
      taken Recorded (fun _ _ => True) := by
  refine meets_bind
    (meets_storeChunkConcurrent (engine.blake3 chunk.data) chunk.data h) ?_
  rintro ⟨location, stored, work'⟩ taken' ⟨hrecorded, hhash⟩ ref href
  rcases List.mem_append.mp href with hold | hnew
  · exact hrecorded ref hold
  · rw [List.mem_singleton.mp hnew]
    exact hhash

theorem meets_backupFileConcurrent (source : Source) (run : Execution)
    (job : BackupJob) (entry : FileEntry) (h : Recorded work taken) :
    (engine.backupFileConcurrent source run job work entry).Meets Allowed Takes
      taken Recorded (fun _ _ => True) := by
  rw [BackupEngine.backupFileConcurrent]
  split
  · exact h
  · refine meets_ofExcept (fun chunks _ => ?_) (fun _ _ => trivial)
    refine meets_bind (meets_foldlM (I := Recorded) h ?_) ?_
    · intro work' taken' chunk _ h'
      exact meets_processChunkConcurrent run.versionId entry.path chunk h'
    · intro work' taken' h'
      refine meets_perform trivial ?_
      rintro _ _ ⟨rfl, _⟩ ref href
      exact List.mem_append_left _ (h' ref href)

/-- A backup deletes nothing and commits only chunks that it has taken. -/
theorem meets_runBackupConcurrent (source : Source) (run : Execution)
    (job : BackupJob) :
    (engine.runBackupConcurrent source run job).Meets Allowed Takes []
      (fun _ _ => True) (fun _ _ => True) := by
  refine meets_perform trivial ?_
  rintro r _ ⟨rfl, _⟩
  refine meets_ofExcept (fun _ _ => ?_) (fun _ _ => trivial)
  refine meets_perform trivial ?_
  rintro _ taken ⟨rfl, _⟩
  refine meets_bind (meets_foldlM (I := Recorded) nofun ?_) ?_
  · intro work' taken' entry _ h'
    exact meets_backupFileConcurrent source run job entry h'
  · intro work' taken' h'
    refine meets_perform trivial ?_
    rintro _ _ ⟨rfl, _⟩
    refine meets_perform ?_ ?_
    · intro ref href
      exact List.mem_append_left _ (h' ref href)
    · rintro r _ ⟨rfl, _⟩
      refine meets_ofExcept (fun _ _ => ?_) (fun _ _ => trivial)
      exact meets_perform trivial fun _ _ _ => trivial

end Protocol

section Alone

variable {parties : Parties}

/-- The cleanup gets from one state to another without a step of the backup. -/
def Reaches (parties : Parties) (a b : Files × CleanupPc) : Prop :=
  ∃ n, (Function.uncurry (stepCleanup parties))^[n] a = b

theorem Reaches.step {a b : Files × CleanupPc}
    (h : Reaches parties (stepCleanup parties a.1 a.2) b) :
    Reaches parties a b := by
  obtain ⟨n, hn⟩ := h
  exact ⟨n + 1, hn⟩

theorem reaches_readDeleted {files : Files} {b : Files × CleanupPc}
    (todo : List VersionId) : ∀ read chunksInDeleted,
      Reaches parties
        (files, .readKept parties.decision.keep (read + todo.length)
          (chunksInDeleted ++
            readAllChunkRefs parties.executor files read todo) []) b →
      Reaches parties (files, .readDeleted todo read chunksInDeleted) b := by
  induction todo with
  | nil =>
      intro read chunksInDeleted h
      rw [readAllChunkRefs, List.zipIdx_nil, List.flatMap_nil,
        List.append_nil] at h
      exact Reaches.step h
  | cons vid todo ih =>
      intro read chunksInDeleted h
      refine Reaches.step (ih (read + 1) _ ?_)
      rw [readAllChunkRefs, List.zipIdx_cons, List.flatMap_cons,
        ← List.append_assoc, List.length_cons, Nat.add_comm todo.length,
        ← Nat.add_assoc] at h
      exact h

theorem reaches_readKept {files : Files} {b : Files × CleanupPc}
    (todo : List VersionId) : ∀ read chunksInDeleted remainingChunks,
      Reaches parties
        (files, .findChunk ((parties.executor.order.arrange
          chunksInDeleted.dedup).filter fun h => h ∉ remainingChunks ++
            readAllChunkRefs parties.executor files read todo) []) b →
      Reaches parties
        (files, .readKept todo read chunksInDeleted remainingChunks) b := by
  induction todo with
  | nil =>
      intro read chunksInDeleted remainingChunks h
      rw [readAllChunkRefs, List.zipIdx_nil, List.flatMap_nil,
        List.append_nil] at h
      exact Reaches.step h
  | cons vid todo ih =>
      intro read chunksInDeleted remainingChunks h
      refine Reaches.step (ih (read + 1) chunksInDeleted _ ?_)
      rw [readAllChunkRefs, List.zipIdx_cons, List.flatMap_cons,
        ← List.append_assoc] at h
      exact h

theorem reaches_findChunk (todo : List ChunkHash) : ∀ files reclaimed,
    Reaches parties (files, .findChunk todo reclaimed)
      ((todo.foldl (reclaimChunk parties.executor) (files, reclaimed)).1,
        .done
          { deletedVersions := toDelete parties.executor parties.decision
            reclaimedChunks :=
              (todo.foldl (reclaimChunk parties.executor) (files, reclaimed)).2
            skippedInUse := skipped parties.executor parties.decision }) := by
  induction todo with
  | nil =>
      intro files reclaimed
      exact ⟨1, rfl⟩
  | cons hash todo ih =>
      intro files reclaimed
      cases hfind : findChunk parties.executor.root files hash with
      | ok location =>
          have hstep : stepCleanup parties files
              (.findChunk (hash :: todo) reclaimed) =
                (files, .deleteChunk hash location todo reclaimed) := by
            simp only [stepCleanup, hfind]
          have hreclaim : reclaimChunk parties.executor (files, reclaimed) hash =
              (deleteChunk parties.executor.root location files,
                reclaimed ++ [hash]) := by
            simp only [reclaimChunk, hfind]
          refine Reaches.step ?_
          rw [hstep, List.foldl_cons, hreclaim]
          exact Reaches.step (ih _ _)
      | error e =>
          have hstep : stepCleanup parties files
              (.findChunk (hash :: todo) reclaimed) =
                (files, .findChunk todo reclaimed) := by
            simp only [stepCleanup, hfind]
          have hreclaim : reclaimChunk parties.executor (files, reclaimed) hash =
              (files, reclaimed) := by
            simp only [reclaimChunk, hfind]
          refine Reaches.step ?_
          rw [hstep, List.foldl_cons, hreclaim]
          exact ih files reclaimed

/-- The cleanup gets to its list. -/
theorem reaches_orphaned {files : Files} {b : Files × CleanupPc}
    (h : Reaches parties
      (acquireLock parties.executor.root parties.executor.lockId
          parties.executor.lockText files,
        .findChunk (orphaned parties.executor parties.decision
          (acquireLock parties.executor.root parties.executor.lockId
            parties.executor.lockText files)) []) b) :
    Reaches parties (files, .acquireLock) b := by
  refine Reaches.step (reaches_readDeleted _ 0 [] ?_)
  refine reaches_readKept _ _ _ [] ?_
  rw [List.nil_append, List.nil_append, Nat.zero_add]
  exact h

/-- The steps of the cleanup in a row are an `execute`. -/
theorem cleanup_alone (files : Files) :
    Reaches parties (files, .acquireLock)
      ((execute parties.executor parties.decision files).2,
        .done (execute parties.executor parties.decision files).1) :=
  reaches_orphaned (reaches_findChunk _ _ [])

/-- What the cleanup reaches alone is reached in a run. -/
theorem Reaches.exists_run {s : Resources Files} {files : Files}
    {pc pc' : CleanupPc} (h : Reaches parties (s.repo, pc) (files, pc'))
    (backup : ConcurrentM BackupResult) (taken : List ChunkHash) :
    ∃ schedule, run parties ⟨s, backup, taken, pc⟩ schedule =
      ⟨⟨files, s.index, s.journal⟩, backup, taken, pc'⟩ := by
  obtain ⟨n, hn⟩ := h
  refine ⟨List.replicate n .cleanup, ?_⟩
  induction n generalizing s pc with
  | zero =>
      cases hn
      rfl
  | succ n ih =>
      exact ih (s := ⟨(stepCleanup parties s.repo pc).1, s.index, s.journal⟩) hn

/-- The calls of the backup in a row are a `run_backup_concurrent`. -/
theorem backup_alone {s s' : Resources Files}
    {backup : ConcurrentM BackupResult} {r : Except Halt BackupResult}
    (h : exec parties.serve backup s = (r, s')) (taken : List ChunkHash)
    (pc : CleanupPc) :
    ∃ schedule taken', run parties ⟨s, backup, taken, pc⟩ schedule =
      ⟨s', ofResult r, taken', pc⟩ := by
  obtain ⟨n, hn⟩ := exists_iterate_step parties.serve backup s
  rw [h] at hn
  refine ⟨List.replicate n .backup, ?_⟩
  induction n generalizing s backup taken with
  | zero =>
      cases hn
      exact ⟨taken, rfl⟩
  | succ n ih =>
      cases backup with
      | call c next =>
          have hnext : exec parties.serve (next (parties.serve c s).1)
              (parties.serve c s).2 = (r, s') := h
          exact ih hnext _ hn
      | _ => exact ih h taken hn

/-- The whole backup may run when the cleanup has its list and has deleted
nothing. -/
theorem exists_run_backup_after_list {s s' : Resources Files} {files : Files}
    {source : Source} {execution : Execution} {job : BackupJob}
    {todo : List ChunkHash} {saved : BackupResult}
    (hlist : Reaches parties (s.repo, .acquireLock) (files, .findChunk todo []))
    (hsaved : exec parties.serve
      (parties.engine.runBackupConcurrent source execution job)
      ⟨files, s.index, s.journal⟩ = (.ok saved, s')) :
    ∃ schedule result,
      (run parties (start parties s source execution job) schedule).backup =
          .ret saved ∧
        (run parties (start parties s source execution job) schedule).cleanup =
          .done result ∧
        (run parties (start parties s source execution job)
          schedule).shared.repo =
            (todo.foldl (reclaimChunk parties.executor) (s'.repo, [])).1 := by
  obtain ⟨listing, hlisted⟩ := hlist.exists_run
    (parties.engine.runBackupConcurrent source execution job) []
  obtain ⟨saving, taken, hbackup⟩ :=
    backup_alone hsaved [] (.findChunk todo [])
  obtain ⟨deleting, hdeleted⟩ := Reaches.exists_run
    (@reaches_findChunk parties todo s'.repo []) (.ret saved) taken
  have hrun : run parties (start parties s source execution job)
      (listing ++ (saving ++ deleting)) =
        run parties (run parties (run parties
          (start parties s source execution job) listing) saving) deleting := by
    rw [run, List.foldl_append, List.foldl_append]
    rfl
  rw [start, hlisted, hbackup, ofResult, hdeleted] at hrun
  exact ⟨listing ++ (saving ++ deleting), _, congrArg Config.backup hrun,
    congrArg Config.cleanup hrun,
    congrArg (fun cfg : Config => cfg.shared.repo) hrun⟩

end Alone

section Safety

variable {parties : Parties}

/-- Nothing that is taken or needed is missing or about to be deleted, and the
backup goes on as it has promised. -/
structure Safe (parties : Parties) (cfg : Config) : Prop where
  needed : ∀ h,
    Needed parties.executor parties.decision cfg.shared.repo h →
      chunkExists parties.executor.root cfg.shared.repo h ∧
        h ∉ cfg.cleanup.pending
  taken : ∀ h ∈ cfg.taken,
    chunkExists parties.executor.root cfg.shared.repo h ∧
      h ∉ cfg.cleanup.pending
  backup : cfg.backup.Meets Allowed Takes cfg.taken
    (fun _ _ => True) (fun _ _ => True)
  location : ∀ hash location todo reclaimed,
    cfg.cleanup = .deleteChunk hash location todo reclaimed →
      location = chunkLocation hash

/-- Where the same manifests are read, the same chunks are needed. -/
theorem needed_of_readManifest_eq {executor : Executor}
    {decision : RetentionDecision} {files files' : Files} {h : ChunkHash}
    (hread : ∀ v, readManifest executor.root executor.json files' v =
      readManifest executor.root executor.json files v)
    (hneeded : Needed executor decision files' h) :
    Needed executor decision files h := by
  obtain ⟨v, m, hv, hm, hh⟩ := hneeded
  exact ⟨v, m, hv, (hread v).symm.trans hm, hh⟩

section Serve

variable {taken : List ChunkHash} {c : EngineCall} {s : Resources Files}

theorem accepted_serve : Accepted c (parties.serve c s).1 := by
  cases c with
  | repo c =>
      cases c with
      | _ => trivial
  | _ => trivial

/-- An allowed call removes no chunk. -/
theorem chunkExists_serve (hallowed : Allowed taken c) {h : ChunkHash}
    (hexists : chunkExists parties.executor.root s.repo h) :
    chunkExists parties.executor.root (parties.serve c s).2.repo h := by
  cases c with
  | repo c =>
      have hstored := (repository parties.executor.root parties.executor.json
        parties.lockId parties.lockText).stored_serve c s.repo (chunkLocation h)
          (fun l hl => by rw [hl] at hallowed; exact hallowed)
          ⟨h, rfl, hexists⟩
      obtain ⟨h', heq, hexists'⟩ := hstored
      rw [chunkLocation_injective heq]
      exact hexists'
  | _ => exact hexists

/-- A chunk that is taken is there. -/
theorem chunkExists_of_takes {h : ChunkHash}
    (htakes : h ∈ takes c (parties.serve c s).1)
    (hlookup : c = .batchLookup h →
      chunkExists parties.executor.root s.repo h) :
    chunkExists parties.executor.root (parties.serve c s).2.repo h := by
  cases c with
  | repo c =>
      cases c with
      | findChunk hash =>
          have hfind : h ∈ takes (.repo (.findChunk hash))
              (findChunk parties.executor.root s.repo hash) := htakes
          cases hanswer : findChunk parties.executor.root s.repo hash with
          | error e =>
              rw [hanswer] at hfind
              cases hfind
          | ok location =>
              rw [hanswer] at hfind
              rw [List.mem_singleton.mp hfind]
              exact (findChunk_eq_ok hanswer).2
      | writeChunk hash encrypted =>
          have hhash : h = hash := List.mem_singleton.mp htakes
          have hexists : chunkExists parties.executor.root
              (writeChunk parties.executor.root hash encrypted s.repo).2 h =
                (decide (h = hash) || chunkExists parties.executor.root s.repo h) :=
            chunkExists_writeChunk hash h encrypted
          rw [decide_eq_true hhash, Bool.true_or] at hexists
          exact hexists
      | _ => cases htakes
  | batchLookup hash =>
      have hhit : h ∈ takes (.batchLookup hash) (s.index.lookup hash) := htakes
      cases hentry : s.index.lookup hash with
      | none =>
          rw [hentry] at hhit
          cases hhit
      | some entry =>
          rw [hentry] at hhit
          refine hlookup ?_
          rw [List.mem_singleton.mp hhit]
  | _ => cases htakes

/-- After an allowed call the same chunks are needed, or ones that are taken. -/
theorem needed_serve
    (hjson : KeepsRefs parties.executor.json)
    (hallowed : Allowed taken c) {h : ChunkHash}
    (hneeded : Needed parties.executor parties.decision
      (parties.serve c s).2.repo h) :
    Needed parties.executor parties.decision s.repo h ∨ h ∈ taken := by
  cases c with
  | repo c =>
      cases c with
      | acquireLock =>
          refine Or.inl (needed_of_readManifest_eq (fun v => ?_) hneeded)
          exact readManifest_acquireLock _ _ _ _ _ v
      | writeChunk hash encrypted =>
          refine Or.inl (needed_of_readManifest_eq (fun v => ?_) hneeded)
          exact readManifest_writeChunk _ hash encrypted v
      | deleteChunk location =>
          exact hallowed.elim
      | writeManifest versionId manifest =>
          obtain ⟨v, m, hv, hm, hh⟩ := hneeded
          rcases readManifest_writeManifest hm with hnew | hold
          · right
            obtain ⟨ref, href, rfl⟩ := List.mem_map.mp hh
            exact hallowed ref (hjson manifest m hnew ref href)
          · exact Or.inl ⟨v, m, hv, hold, hh⟩
      | _ => exact Or.inl hneeded
  | _ => exact Or.inl hneeded

end Serve

/-- A step of the backup that takes no chunk on the list and none that is
missing. -/
theorem safe_stepBackup {cfg : Config}
    (hjson : KeepsRefs parties.executor.json)
    (h : Safe parties cfg) (hund : Undisturbed parties cfg .backup) :
    Safe parties (stepBackup parties cfg) := by
  cases hbackup : cfg.backup with
  | call c next =>
      have hmeets := h.backup
      rw [hbackup] at hmeets
      obtain ⟨hallowed, hnext⟩ := hmeets
      have hstep : stepBackup parties cfg =
          { cfg with
            shared := (parties.serve c cfg.shared).2
            backup := next (parties.serve c cfg.shared).1
            taken := cfg.taken ++ takes c (parties.serve c cfg.shared).1 } := by
        rw [stepBackup, hbackup]
      have htaken : ∀ hash ∈ cfg.taken,
          chunkExists parties.executor.root
              (parties.serve c cfg.shared).2.repo hash ∧
            hash ∉ cfg.cleanup.pending := fun hash hmem =>
        ⟨chunkExists_serve hallowed (h.taken hash hmem).1, (h.taken hash hmem).2⟩
      rw [hstep]
      refine ⟨?_, ?_, ?_, h.location⟩
      · intro hash hneeded
        rcases needed_serve hjson hallowed hneeded with hold | hmem
        · exact ⟨chunkExists_serve hallowed (h.needed hash hold).1,
            (h.needed hash hold).2⟩
        · exact htaken hash hmem
      · intro hash hmem
        rcases List.mem_append.mp hmem with hold | hnew
        · exact htaken hash hold
        · obtain ⟨hnot, hlookup⟩ := hund c next hbackup hash hnew
          exact ⟨chunkExists_of_takes hnew hlookup, hnot⟩
      · exact hnext _ _ ⟨rfl, accepted_serve⟩
  | _ =>
      rw [stepBackup, hbackup]
      exact h

/-- A step of the cleanup that does not lengthen its list and removes only
chunks on the list. -/
theorem Safe.withCleanup {cfg : Config} {files : Files} {pc : CleanupPc}
    (h : Safe parties cfg)
    (hread : ∀ v, readManifest parties.executor.root parties.executor.json
      files v = readManifest parties.executor.root parties.executor.json
        cfg.shared.repo v)
    (hkept : ∀ hash, hash ∉ cfg.cleanup.pending →
      chunkExists parties.executor.root cfg.shared.repo hash →
        chunkExists parties.executor.root files hash)
    (hpending : ∀ hash ∈ pc.pending, hash ∈ cfg.cleanup.pending)
    (hlocation : ∀ hash location todo reclaimed,
      pc = .deleteChunk hash location todo reclaimed →
        location = chunkLocation hash) :
    Safe parties
      { cfg with
        shared := { cfg.shared with repo := files }
        cleanup := pc } where
  needed hash hneeded := by
    obtain ⟨hexists, hnot⟩ :=
      h.needed hash (needed_of_readManifest_eq hread hneeded)
    exact ⟨hkept hash hnot hexists, fun hmem => hnot (hpending hash hmem)⟩
  taken hash hmem := by
    obtain ⟨hexists, hnot⟩ := h.taken hash hmem
    exact ⟨hkept hash hnot hexists, fun hmem => hnot (hpending hash hmem)⟩
  backup := h.backup
  location := hlocation

/-- A step that only changes the state of the cleanup. -/
theorem Safe.withPc {cfg : Config} {pc : CleanupPc} (h : Safe parties cfg)
    (hpending : ∀ hash ∈ pc.pending, hash ∈ cfg.cleanup.pending)
    (hlocation : ∀ hash location todo reclaimed,
      pc = .deleteChunk hash location todo reclaimed →
        location = chunkLocation hash) :
    Safe parties { cfg with cleanup := pc } :=
  h.withCleanup (fun _ => rfl) (fun _ _ hexists => hexists) hpending hlocation

/-- The list is fixed. -/
theorem Safe.withList {cfg : Config} {todo : List ChunkHash}
    (h : Safe parties cfg)
    (htodo : ∀ hash ∈ todo, hash ∉ cfg.taken ∧
      ¬ Needed parties.executor parties.decision cfg.shared.repo hash) :
    Safe parties { cfg with cleanup := .findChunk todo [] } where
  needed hash hneeded :=
    ⟨(h.needed hash hneeded).1, fun hmem => (htodo hash hmem).2 hneeded⟩
  taken hash hmem :=
    ⟨(h.taken hash hmem).1, fun hmem' => (htodo hash hmem').1 hmem⟩
  backup := h.backup
  location := nofun

/-- A step of the cleanup that puts no chunk on its list that is taken or
needed. -/
theorem safe_stepCleanup {cfg : Config} (h : Safe parties cfg)
    (hund : Undisturbed parties cfg .cleanup) :
    Safe parties (step parties cfg .cleanup) := by
  cases hpc : cfg.cleanup with
  | acquireLock =>
      simp only [step, stepCleanup, hpc]
      refine h.withCleanup (fun v => readManifest_acquireLock _ _ _ _ _ v)
        (fun hash _ hexists => ?_) nofun nofun
      exact (chunkExists_acquireLock ..).trans hexists
  | readDeleted todo read chunksInDeleted =>
      cases todo with
      | nil =>
          simp only [step, stepCleanup, hpc]
          exact h.withPc nofun nofun
      | cons vid todo =>
          simp only [step, stepCleanup, hpc]
          exact h.withPc nofun nofun
  | readKept todo read chunksInDeleted remainingChunks =>
      cases todo with
      | nil =>
          simp only [step, stepCleanup, hpc]
          refine h.withList fun hash hmem => ?_
          obtain ⟨hdeleted, hremaining⟩ := List.mem_filter.mp hmem
          rw [IterOrder.mem_arrange, List.mem_dedup] at hdeleted
          exact hund read chunksInDeleted remainingChunks hpc hash hdeleted
            (of_decide_eq_true hremaining)
      | cons vid todo =>
          simp only [step, stepCleanup, hpc]
          exact h.withPc nofun nofun
  | findChunk todo reclaimed =>
      cases todo with
      | nil =>
          simp only [step, stepCleanup, hpc]
          exact h.withPc nofun nofun
      | cons hash todo =>
          cases hfind : findChunk parties.executor.root cfg.shared.repo hash with
          | error e =>
              simp only [step, stepCleanup, hpc, hfind]
              refine h.withPc (fun other hmem => ?_) nofun
              rw [hpc]
              exact List.mem_cons_of_mem hash hmem
          | ok location =>
              simp only [step, stepCleanup, hpc, hfind]
              refine h.withPc (fun other hmem => ?_) ?_
              · rw [hpc]
                exact hmem
              · rintro _ _ _ _ ⟨⟩
                exact (findChunk_eq_ok hfind).1
  | deleteChunk hash location todo reclaimed =>
      obtain rfl := h.location hash location todo reclaimed hpc
      simp only [step, stepCleanup, hpc]
      refine h.withCleanup (fun v => readManifest_deleteChunk _ hash v)
        (fun other hnot hexists => ?_) (fun other hmem => ?_) nofun
      · rw [hpc] at hnot
        have hne : other ≠ hash := fun heq => hnot (heq ▸ List.mem_cons_self)
        rw [chunkExists_deleteChunk, hexists, decide_eq_true hne]
        rfl
      · rw [hpc]
        exact List.mem_cons_of_mem hash hmem
  | done result =>
      simp only [step, stepCleanup, hpc]
      exact h.withPc nofun nofun

-- A run is undisturbed if its first step is, and the rest is from where it leads.
theorem undisturbedRun_backup {cfg : Config} {schedule : List Turn}
    (c : EngineCall) (r : c.Answer) (s' : Resources Files)
    {next : c.Answer → ConcurrentM BackupResult} (hcall : cfg.backup = .call c next)
    (hserve : parties.serve c cfg.shared = (r, s'))
    (htakes : ∀ h ∈ takes c r, h ∉ cfg.cleanup.pending ∧
      (c = .batchLookup h → chunkExists parties.executor.root cfg.shared.repo h))
    (hrest : UndisturbedRun parties ⟨s', next r, cfg.taken ++ takes c r, cfg.cleanup⟩
      schedule) :
    UndisturbedRun parties cfg (.backup :: schedule) := by
  have hstep : step parties cfg .backup =
      ⟨s', next r, cfg.taken ++ takes c r, cfg.cleanup⟩ := by
    simp only [step, stepBackup, hcall, hserve]
  refine ⟨fun c' next' hcall' => ?_, hstep ▸ hrest⟩
  cases hcall.symm.trans hcall'
  rw [hserve]
  exact htakes

theorem undisturbedRun_cleanup {cfg : Config} {schedule : List Turn}
    (files : Files) (pc : CleanupPc)
    (hstep : stepCleanup parties cfg.shared.repo cfg.cleanup = (files, pc))
    (hlist : Undisturbed parties cfg .cleanup)
    (hrest : UndisturbedRun parties
      ⟨⟨files, cfg.shared.index, cfg.shared.journal⟩, cfg.backup, cfg.taken, pc⟩ schedule) :
    UndisturbedRun parties cfg (.cleanup :: schedule) := by
  have hnext : step parties cfg .cleanup =
      ⟨⟨files, cfg.shared.index, cfg.shared.journal⟩, cfg.backup, cfg.taken, pc⟩ := by
    simp only [step, hstep]
  exact ⟨hlist, hnext ▸ hrest⟩

theorem safe_run
    (hjson : KeepsRefs parties.executor.json)
    (schedule : List Turn) : ∀ {cfg : Config}, Safe parties cfg →
      UndisturbedRun parties cfg schedule →
        Safe parties (run parties cfg schedule) := by
  induction schedule with
  | nil =>
      intro cfg h _
      exact h
  | cons turn schedule ih =>
      intro cfg h hrun
      refine ih ?_ hrun.2
      cases turn with
      | backup =>
          exact safe_stepBackup hjson h hrun.1
      | cleanup =>
          exact safe_stepCleanup h hrun.1

/-- Whatever the interleaving, as long as the backup takes no chunk that is
missing or about to be deleted and the cleanup lists none that is taken or
needed, no version that is not deleted loses a chunk, in every state reached. -/
theorem run_complete (parties : Parties) (s : Resources Files)
    (source : Source) (execution : Execution) (job : BackupJob)
    (schedule : List Turn)
    (hjson : KeepsRefs parties.executor.json)
    (hstart : Complete parties s.repo)
    (hrun : UndisturbedRun parties (start parties s source execution job)
      schedule) :
    Complete parties
      (run parties (start parties s source execution job) schedule).shared.repo := by
  have hsafe : Safe parties (start parties s source execution job) :=
    ⟨fun h hneeded => ⟨hstart h hneeded, nofun⟩, nofun,
      meets_runBackupConcurrent source execution job, nofun⟩
  intro h hneeded
  exact ((safe_run hjson schedule hsafe hrun).needed h hneeded).1

end Safety

section Example

open BackupEngine

/-- An old version of one file with the content `abc`. -/
def abcVersion : Manifest :=
  { emptyChunkVersion 1 with
    chunkRefs := [{
      hash := abcHash
      versionId := ⟨BitVec.ofNat 128 1⟩
      filePath := "/data/a"
      offset := 0 }] }

/-- The same file is backed up again. -/
def abcSource : Source where
  found := [exampleFile "/data/a" 3]
  content := fun _ => some abc
  totalFiles := 1

/-- What that backup collects. -/
def abcProgress : Progress where
  files := [twoChunkEngine.completedEntry (exampleFile "/data/a" 3)
    [{ offset := 0, data := abc }]]
  chunkRefs := [{
    hash := abcHash
    versionId := ⟨exampleUuid 3⟩
    filePath := "/data/a"
    offset := 0 }]
  chunkLocations := AList.insert abcHash.toHex (chunkLocation abcHash) ∅
  dataProcessed := 3
  dataStored := 0
  chunkCount := 1
  fileCount := 1
  skippedFiles := []

/-- The manifest of the new version. -/
def newVersion : Manifest :=
  twoChunkEngine.fullManifest (exampleExecution 3) abcProgress

/-- JSON that reads both manifests back. -/
def raceJson : ManifestJson where
  toVec := Json.manifestBytes
  fromSlice := fun data =>
    if data = Json.manifestBytes abcVersion then .ok abcVersion
    else if data = Json.manifestBytes newVersion then .ok newVersion
    else .error "expected value at line 1 column 1"

/-- The old version is to be deleted while the new one is made. -/
def raceParties (json : ManifestJson) : Parties where
  engine := twoChunkEngine
  lockId := exampleUuid 4
  lockText := []
  executor := {
    root := "/repo"
    json := json
    inUseVersions := []
    readFails := fun _ => false
    order := .asStored
    lockId := exampleUuid 5
    lockText := [] }
  decision := { keep := [], delete := [⟨BitVec.ofNat 128 1⟩] }

/-- The two parties take turns; the cleanup has its list before the backup writes its
chunk, and deletes between the calls of the backup. -/
def takingTurns : List Turn :=
  [.backup, .cleanup, .backup, .cleanup, .backup, .cleanup, .backup, .cleanup, .backup,
    .cleanup, .backup, .cleanup, .backup, .backup, .backup, .cleanup, .backup]

/-- The files when both have left their locks. -/
def locked (files : Files) : Files :=
  acquireLock "/repo" (exampleUuid 5) [] (acquireLock "/repo" (exampleUuid 4) [] files)

/-- The files when the backup has written its chunk as well. -/
def locksAndChunk (files : Files) : Files :=
  (writeChunk "/repo" abcHash (wrapChunk abcFrame) (locked files)).2

/-- The old version and its chunk. -/
def raceShared : Resources Files where
  repo := Files.write (Files.write ∅
    (manifestPath "/repo" ⟨BitVec.ofNat 128 1⟩) (Json.manifestBytes abcVersion))
    (chunkPath "/repo" abcHash) (encodeEncryptedChunk (wrapChunk abcFrame))
  index := ∅
  journal := none

def raceStart : Config :=
  start (raceParties raceJson) raceShared abcSource (exampleExecution 3) exampleJob

/-- Either manifest names the chunk and no other. -/
theorem chunkRefs_of_fromSlice {data : Bytes} {m : Manifest}
    (hread : raceJson.fromSlice data = .ok m) :
    m.chunkRefs.map ChunkReference.hash = [abcHash] := by
  simp only [raceJson] at hread
  split at hread
  · cases hread
    rfl
  · split at hread
    · cases hread
      rfl
    · cases hread

section Trace

variable {parties : Parties} {json : ManifestJson} {files : Files}

/-- A chunk that the index does not know and the repository has. -/
theorem exec_storeChunk_of_present {engine : BackupEngine} {s : Resources Files}
    {hash : ChunkHash} (data : Bytes) (work : Work)
    (hindex : s.index.lookup hash = none)
    (hexists : chunkExists parties.executor.root s.repo hash) :
    exec parties.serve (engine.storeChunkConcurrent hash data work) s =
      (.ok (chunkLocation hash, 0, work),
        { s with index := s.index.registerNew hash (chunkLocation hash) }) := by
  have hlookup : parties.serve (.batchLookup hash) s = (none, s) := by
    change (s.index.lookup hash, s) = _
    rw [hindex]
  have hpresent : parties.serve (.repo (.chunkExists hash)) s = (.ok true, s) := by
    change (Except.ok (chunkExists parties.executor.root s.repo hash), s) = _
    rw [hexists]
  have hfind : parties.serve (.repo (.findChunk hash)) s =
      (.ok (chunkLocation hash), s) := by
    change (findChunk parties.executor.root s.repo hash, s) = _
    rw [findChunk, if_pos hexists]
  exact (exec_perform_of_eq parties.serve hlookup).trans
    ((exec_perform_of_eq parties.serve hpresent).trans
      (exec_perform_of_eq parties.serve hfind))

/-- The work after the only chunk of the file. -/
def abcWork : Work where
  progress := { Progress.start with
    chunkRefs := abcProgress.chunkRefs
    chunkLocations := abcProgress.chunkLocations
    chunkCount := 1 }
  staging := .new
  chunkIdsDrawn := 0

/-- The backup of the file finds its chunk. -/
theorem exec_backupFile_abc (hexists : chunkExists "/repo" files abcHash) :
    exec (raceParties json).serve
        (twoChunkEngine.backupFileConcurrent abcSource (exampleExecution 3)
          exampleJob .start (exampleFile "/data/a" 3))
        { repo := files, index := ∅, journal := none } =
      (.ok { Work.start with progress := abcProgress },
        { repo := files
          index := LocalDedupIndex.registerNew ∅ abcHash (chunkLocation abcHash)
          journal := none }) := by
  have hstore : exec (raceParties json).serve
      (twoChunkEngine.storeChunkConcurrent abcHash abc .start)
      { repo := files, index := ∅, journal := none } = _ :=
    exec_storeChunk_of_present abc .start rfl hexists
  have hchunks : exec (raceParties json).serve
      ([{ offset := 0, data := abc }].foldlM
        (twoChunkEngine.processChunkConcurrent ⟨exampleUuid 3⟩ "/data/a") .start)
      { repo := files, index := ∅, journal := none } =
        (.ok abcWork,
          { repo := files
            index := LocalDedupIndex.registerNew ∅ abcHash (chunkLocation abcHash)
            journal := none }) := by
    rw [List.foldlM_cons]
    refine exec_bind_of_ok _ (a := abcWork) ?_
    exact exec_bind_of_ok _ hstore
  exact exec_bind_of_ok _ hchunks

/-- After its files a backup writes the manifest. -/
theorem exec_runBackup_of_files {engine : BackupEngine} {source : Source}
    {execution : Execution} {job : BackupJob} {s' : Resources Files} {work : Work}
    (hfiles : exec parties.serve
      ((scan source none).foldlM
        (engine.backupFileConcurrent source execution job) .start)
      ⟨acquireLock parties.executor.root parties.lockId parties.lockText files,
        ∅, none⟩ = (.ok work, s')) :
    ∃ s'',
      exec parties.serve (engine.runBackupConcurrent source execution job)
          ⟨files, ∅, none⟩ =
        (.ok (backupResult execution work.progress execution.endedAfter), s'') ∧
      s''.repo = writeManifest parties.executor.root parties.executor.json
        execution.versionId (engine.fullManifest execution work.progress)
        s'.repo :=
  ⟨_, (exec_perform_of_eq parties.serve rfl).trans
    ((exec_perform_of_eq parties.serve rfl).trans
      (exec_bind_of_ok parties.serve hfiles)), rfl⟩

/-- The backup writes its manifest and no chunk. -/
theorem exec_runBackup_abc (json : ManifestJson)
    (hexists : chunkExists "/repo" files abcHash) :
    ∃ s',
      exec (raceParties json).serve
          (twoChunkEngine.runBackupConcurrent abcSource (exampleExecution 3)
            exampleJob) ⟨files, ∅, none⟩ =
        (.ok (backupResult (exampleExecution 3) abcProgress
          (exampleExecution 3).endedAfter), s') ∧
      s'.repo = writeManifest "/repo" json ⟨exampleUuid 3⟩ newVersion
        (acquireLock "/repo" (exampleUuid 4) [] files) := by
  have hlocked : chunkExists "/repo"
      (acquireLock "/repo" (exampleUuid 4) [] files) abcHash :=
    (chunkExists_acquireLock ..).trans hexists
  have hscan : scan abcSource none = [exampleFile "/data/a" 3] := by
    rfl
  have hfiles : exec (raceParties json).serve
      ((scan abcSource none).foldlM (twoChunkEngine.backupFileConcurrent abcSource
        (exampleExecution 3) exampleJob) .start)
      { repo := acquireLock "/repo" (exampleUuid 4) [] files
        index := ∅
        journal := none } =
        (.ok { Work.start with progress := abcProgress },
          { repo := acquireLock "/repo" (exampleUuid 4) [] files
            index := LocalDedupIndex.registerNew ∅ abcHash (chunkLocation abcHash)
            journal := none }) := by
    rw [hscan, List.foldlM_cons]
    exact exec_bind_of_ok _ (exec_backupFile_abc hlocked)
  exact exec_runBackup_of_files hfiles

/-- The chunk of the old version is orphaned. -/
theorem orphaned_abc {m : Manifest}
    (hread : readManifest "/repo" json files ⟨BitVec.ofNat 128 1⟩ = .ok m)
    (hrefs : m.chunkRefs.map ChunkReference.hash = [abcHash]) :
    orphaned (raceParties json).executor (raceParties json).decision files =
      [abcHash] := by
  have hchunks : readChunkRefs (raceParties json).executor files
      ⟨BitVec.ofNat 128 1⟩ 0 = [abcHash] := by
    simp only [readChunkRefs, raceParties, hread, hrefs]
    rfl
  have hdeleted : chunksInDeleted (raceParties json).executor
      (raceParties json).decision files = [abcHash] := by
    change readChunkRefs (raceParties json).executor files
      ⟨BitVec.ofNat 128 1⟩ 0 ++ [] = _
    rw [hchunks]
    rfl
  rw [orphaned, hdeleted]
  rfl

theorem reclaimChunk_of_present (executor : Executor) {hash : ChunkHash}
    {reclaimed : List ChunkHash}
    (hexists : chunkExists executor.root files hash) :
    reclaimChunk executor (files, reclaimed) hash =
      (deleteChunk executor.root (chunkLocation hash) files,
        reclaimed ++ [hash]) := by
  have hfind : findChunk executor.root files hash =
      .ok (chunkLocation hash) := by
    rw [findChunk, if_pos hexists]
  simp only [reclaimChunk, hfind]

/-- The cleanup fixes its list, the backup finds the chunk and commits, and the
cleanup deletes the chunk. -/
theorem exists_race {m : Manifest} (hexists : chunkExists "/repo" files abcHash)
    (hread : readManifest "/repo" json files ⟨BitVec.ofNat 128 1⟩ = .ok m)
    (hrefs : m.chunkRefs.map ChunkReference.hash = [abcHash]) :
    ∃ schedule saved reclaimed,
      (run (raceParties json) (start (raceParties json) ⟨files, ∅, none⟩ abcSource
        (exampleExecution 3) exampleJob) schedule).backup = .ret saved ∧
      (run (raceParties json) (start (raceParties json) ⟨files, ∅, none⟩ abcSource
        (exampleExecution 3) exampleJob) schedule).cleanup = .done reclaimed ∧
      (run (raceParties json) (start (raceParties json) ⟨files, ∅, none⟩ abcSource
        (exampleExecution 3) exampleJob) schedule).shared.repo =
          deleteChunk "/repo" (chunkLocation abcHash)
            (writeManifest "/repo" json ⟨exampleUuid 3⟩ newVersion
              (acquireLock "/repo" (exampleUuid 4) []
                (acquireLock "/repo" (exampleUuid 5) [] files))) := by
  have hlocked : chunkExists "/repo"
      (acquireLock "/repo" (exampleUuid 5) [] files) abcHash :=
    (chunkExists_acquireLock ..).trans hexists
  have horphaned : orphaned (raceParties json).executor
      (raceParties json).decision
        (acquireLock "/repo" (exampleUuid 5) [] files) = [abcHash] :=
    orphaned_abc ((readManifest_acquireLock ..).trans hread) hrefs
  have hlisting : Reaches (raceParties json) (files, .acquireLock)
      (acquireLock "/repo" (exampleUuid 5) [] files,
        .findChunk [abcHash] []) := by
    refine reaches_orphaned ⟨0, ?_⟩
    rw [← horphaned]
    rfl
  have hkept : chunkExists "/repo"
      (writeManifest "/repo" json ⟨exampleUuid 3⟩ newVersion
        (acquireLock "/repo" (exampleUuid 4) []
          (acquireLock "/repo" (exampleUuid 5) [] files))) abcHash := by
    rw [chunkExists_writeManifest, chunkExists_acquireLock]
    exact hlocked
  obtain ⟨s', hsaved, hrepo⟩ := exec_runBackup_abc json hlocked
  obtain ⟨schedule, reclaimed, hbackup, hcleanup, hfiles⟩ :=
    @exists_run_backup_after_list (raceParties json) ⟨files, ∅, none⟩ s' _ abcSource
      (exampleExecution 3) exampleJob _ _ hlisting hsaved
  refine ⟨schedule, _, reclaimed, hbackup, hcleanup, hfiles.trans ?_⟩
  rw [List.foldl_cons, List.foldl_nil, hrepo]
  rw [reclaimChunk_of_present (raceParties json).executor hkept]
  rfl

theorem readManifest_locked (v : VersionId) :
    readManifest "/repo" json (locked files) v = readManifest "/repo" json files v := by
  rw [locked, readManifest_acquireLock, readManifest_acquireLock]

theorem chunkExists_locked (h : ChunkHash) :
    chunkExists "/repo" (locked files) h = chunkExists "/repo" files h := by
  rw [locked, chunkExists_acquireLock, chunkExists_acquireLock]

/-- With both locks there, the old version is read and names the empty chunk. -/
theorem readChunkRefs_locked
    (hold : readManifest "/repo" json files ⟨BitVec.ofNat 128 1⟩ = .ok (emptyChunkVersion 1)) :
    readChunkRefs (raceParties json).executor (locked files)
      ⟨BitVec.ofNat 128 1⟩ 0 = [.ofEmpty] := by
  simp only [readChunkRefs, raceParties, readManifest_locked, hold]
  rfl

/-- The repository does not know the chunk of the file. -/
theorem serve_chunkExists_locked (hmissing : chunkExists "/repo" files abcHash = false) :
    (raceParties json).serve (.repo (.chunkExists abcHash)) ⟨locked files, ∅, none⟩ =
      (.ok false, ⟨locked files, ∅, none⟩) :=
  congrArg (fun b => (Except.ok b, (⟨locked files, ∅, none⟩ : Resources Files)))
    ((chunkExists_locked abcHash).trans hmissing)

/-- No version but the deleted one is there when the list is made, so none of them names
a chunk of the list. -/
theorem undisturbed_list_locked
    (hothers : ∀ v, v ≠ ⟨BitVec.ofNat 128 1⟩ →
      ∀ m, readManifest "/repo" json files v ≠ .ok m)
    (backup : ConcurrentM BackupResult) :
    Undisturbed (raceParties json)
      ⟨⟨locked files, ∅, none⟩, backup, [], .readKept [] 1 [.ofEmpty] []⟩ .cleanup := by
  rintro read chunksInDeleted remainingChunks hpc h hmem _
  cases hpc
  refine ⟨List.not_mem_nil, ?_⟩
  rintro ⟨v, m, hv, hm, _⟩
  refine hothers v ?_ m ((readManifest_locked v).symm.trans hm)
  rintro rfl
  exact hv List.mem_cons_self

/-- The chunk of the old version is still found when the backup has written its own. -/
theorem findChunk_locksAndChunk (hpresent : chunkExists "/repo" files .ofEmpty) :
    findChunk (raceParties json).executor.root (locksAndChunk files) .ofEmpty =
      .ok (chunkLocation .ofEmpty) := by
  have hthere : chunkExists "/repo" (locksAndChunk files) .ofEmpty := by
    rw [locksAndChunk, chunkExists_writeChunk, chunkExists_locked, hpresent, Bool.or_true]
  rw [findChunk]
  exact if_pos hthere

/-- A backup of a new chunk next to a cleanup of another. -/
theorem undisturbedRun_apart
    (hmissing : chunkExists "/repo" files abcHash = false)
    (hpresent : chunkExists "/repo" files .ofEmpty)
    (hold : readManifest "/repo" json files ⟨BitVec.ofNat 128 1⟩ = .ok (emptyChunkVersion 1))
    (hothers : ∀ v, v ≠ ⟨BitVec.ofNat 128 1⟩ →
      ∀ m, readManifest "/repo" json files v ≠ .ok m) :
    UndisturbedRun (raceParties json)
      (start (raceParties json) ⟨files, ∅, none⟩ abcSource (exampleExecution 3) exampleJob)
      takingTurns := by
  have hother : abcHash ∉ [ChunkHash.ofEmpty] := by
    decide
  -- both leave their locks, and the cleanup reads the old version
  refine undisturbedRun_backup (.repo .acquireLock) (.ok ())
    ⟨acquireLock "/repo" (exampleUuid 4) [] files, ∅, none⟩ rfl rfl (List.forall_mem_nil _) ?_
  refine undisturbedRun_cleanup (locked files)
    (.readDeleted [⟨BitVec.ofNat 128 1⟩] 0 []) rfl (fun _ _ _ h => by cases h) ?_
  change UndisturbedRun _ ⟨⟨locked files, ∅, none⟩, _, [], _⟩ _
  refine undisturbedRun_backup _ _ ⟨locked files, ∅, none⟩ rfl rfl (List.forall_mem_nil _) ?_
  change UndisturbedRun _
    ⟨⟨locked files, ∅, none⟩, _, [], .readDeleted [⟨BitVec.ofNat 128 1⟩] 0 []⟩ _
  refine undisturbedRun_cleanup (locked files) (.readDeleted [] 1 [.ofEmpty]) ?_
    (fun _ _ _ h => by cases h) ?_
  · rw [stepCleanup, readChunkRefs_locked hold]
    rfl
  change UndisturbedRun _ ⟨⟨locked files, ∅, none⟩, _, [], .readDeleted [] 1 [.ofEmpty]⟩ _
  -- neither the index nor the repository knows the chunk of the file
  refine undisturbedRun_backup (.batchLookup abcHash) none ⟨locked files, ∅, none⟩ rfl rfl
    (List.forall_mem_nil _) ?_
  refine undisturbedRun_cleanup (locked files) (.readKept [] 1 [.ofEmpty] []) rfl
    (fun _ _ _ h => by cases h) ?_
  change UndisturbedRun _ ⟨⟨locked files, ∅, none⟩, _, [], .readKept [] 1 [.ofEmpty] []⟩ _
  refine undisturbedRun_backup (.repo (.chunkExists abcHash)) (.ok false)
    ⟨locked files, ∅, none⟩ rfl (serve_chunkExists_locked hmissing) (List.forall_mem_nil _) ?_
  change UndisturbedRun _ ⟨⟨locked files, ∅, none⟩, _, [], .readKept [] 1 [.ofEmpty] []⟩ _
  -- the list is fixed, then the chunk is written, then the listed one is deleted
  refine undisturbedRun_cleanup (locked files) (.findChunk [.ofEmpty] []) rfl
    (undisturbed_list_locked hothers _) ?_
  change UndisturbedRun _ ⟨⟨locked files, ∅, none⟩, _, [], .findChunk [.ofEmpty] []⟩ _
  refine undisturbedRun_backup (.repo (.writeChunk abcHash (wrapChunk abcFrame)))
    (.ok (chunkLocation abcHash)) ⟨locksAndChunk files, ∅, none⟩ rfl rfl ?_ ?_
  · intro h hmem
    obtain rfl := List.mem_singleton.mp hmem
    exact ⟨hother, fun hcall => by cases hcall⟩
  change UndisturbedRun _
    ⟨⟨locksAndChunk files, ∅, none⟩, _, [abcHash], .findChunk [.ofEmpty] []⟩ _
  refine undisturbedRun_cleanup (locksAndChunk files)
    (.deleteChunk .ofEmpty (chunkLocation .ofEmpty) [] []) ?_ (fun _ _ _ h => by cases h) ?_
  · rw [stepCleanup, findChunk_locksAndChunk hpresent]
  change UndisturbedRun _ ⟨⟨locksAndChunk files, ∅, none⟩, _, [abcHash], _⟩ _
  refine undisturbedRun_backup _ _ _ rfl rfl (List.forall_mem_nil _) ?_
  refine undisturbedRun_cleanup _ _ rfl (fun _ _ _ h => by cases h) ?_
  -- no later call takes a chunk
  refine undisturbedRun_backup _ _ _ rfl rfl (List.forall_mem_nil _) ?_
  refine undisturbedRun_backup _ _ _ rfl rfl (List.forall_mem_nil _) ?_
  refine undisturbedRun_backup _ _ _ rfl rfl (List.forall_mem_nil _) ?_
  refine undisturbedRun_cleanup _ _ rfl (fun _ _ _ h => by cases h) ?_
  refine undisturbedRun_backup _ _ _ rfl rfl (List.forall_mem_nil _) ?_
  trivial

end Trace

/-- The references of one of two versions. -/
def refsOfTwo (old new : Manifest) (v : VersionId) : List ChunkReference :=
  if v = new.versionId then new.chunkRefs else old.chunkRefs

/-- JSON that reads two manifests back; other references are not written. -/
def jsonOfTwo (old new : Manifest) : ManifestJson where
  toVec := fun m =>
    if m.chunkRefs = refsOfTwo old new m.versionId then Json.manifestBytes m else []
  fromSlice := fun data =>
    if data = Json.manifestBytes old then .ok old
    else if data = Json.manifestBytes new then .ok new
    else .error "expected value at line 1 column 1"

/-- JSON for the old version and the new one. -/
def apartJson : ManifestJson :=
  jsonOfTwo (emptyChunkVersion 1) newVersion

/-- The old version has another chunk than the file that is backed up. -/
def apartFiles : Files :=
  Files.write (Files.write ∅ (manifestPath "/repo" ⟨BitVec.ofNat 128 1⟩)
    (Json.manifestBytes (emptyChunkVersion 1)))
    (chunkPath "/repo" .ofEmpty) (List.replicate 28 0)

theorem toVec_jsonOfTwo {old new m m' : Manifest}
    (h : (jsonOfTwo old new).toVec m = Json.manifestBytes m') :
    m.chunkRefs = refsOfTwo old new m'.versionId := by
  simp only [jsonOfTwo] at h
  split at h
  · next hrefs =>
      rw [Json.versionId_eq_of_manifestBytes_eq h] at hrefs
      exact hrefs
  · have hhead := Json.head?_manifestBytes m'
    rw [← h] at hhead
    cases hhead

theorem keepsRefs_jsonOfTwo {old new : Manifest} (hids : old.versionId ≠ new.versionId) :
    KeepsRefs (jsonOfTwo old new) := by
  intro m m' hread
  have hrefs : m.chunkRefs = m'.chunkRefs := by
    by_cases hold : (jsonOfTwo old new).toVec m = Json.manifestBytes old
    · obtain rfl : old = m' := Except.ok.inj ((if_pos hold).symm.trans hread)
      rw [toVec_jsonOfTwo hold, refsOfTwo, if_neg hids]
    · have hread' := (if_neg hold).symm.trans hread
      by_cases hnew : (jsonOfTwo old new).toVec m = Json.manifestBytes new
      · obtain rfl : new = m' := Except.ok.inj ((if_pos hnew).symm.trans hread')
        rw [toVec_jsonOfTwo hnew, refsOfTwo, if_pos rfl]
      · cases (if_neg hnew).symm.trans hread'
  intro ref href
  rw [hrefs]
  exact href

theorem fromSlice_jsonOfTwo (old new : Manifest) :
    (jsonOfTwo old new).fromSlice (Json.manifestBytes old) = .ok old := by
  simp only [jsonOfTwo, if_pos]

theorem readManifest_apartFiles :
    readManifest "/repo" apartJson apartFiles ⟨BitVec.ofNat 128 1⟩ =
      .ok (emptyChunkVersion 1) := by
  have hlookup : apartFiles.lookup (manifestPath "/repo" ⟨BitVec.ofNat 128 1⟩) =
      some (Json.manifestBytes (emptyChunkVersion 1)) := by
    simp only [apartFiles, Files.lookup_write, if_neg (manifestPath_ne_chunkPath _ _),
      if_pos]
  exact readManifest_eq_ok hlookup (fromSlice_jsonOfTwo _ _)

theorem readManifest_apartFiles_of_ne {v : VersionId} (hv : v ≠ ⟨BitVec.ofNat 128 1⟩)
    (m : Manifest) : readManifest "/repo" apartJson apartFiles v ≠ .ok m := by
  intro hread
  obtain ⟨data, hlookup, -⟩ := readManifest_eq_ok_iff.mp hread
  have hpath : manifestPath "/repo" v ≠ manifestPath "/repo" ⟨BitVec.ofNat 128 1⟩ :=
    fun heq => hv (manifestPath_injective heq)
  rw [apartFiles, Files.lookup_write, if_neg (manifestPath_ne_chunkPath _ _),
    Files.lookup_write, if_neg hpath] at hlookup
  cases hlookup

theorem chunkExists_apartFiles (h : ChunkHash) :
    chunkExists "/repo" apartFiles h = decide (h = .ofEmpty) := by
  by_cases heq : h = .ofEmpty
  · subst heq
    simp [chunkExists, apartFiles]
  · have hpath : chunkPath "/repo" h ≠ chunkPath "/repo" .ofEmpty :=
      fun hp => heq (chunkPath_injective hp)
    rw [chunkExists, apartFiles, Files.lookup_write, if_neg hpath, Files.lookup_write,
      if_neg (manifestPath_ne_chunkPath _ _).symm, decide_eq_false heq]
    rfl

/-- A file is backed up while the chunk of an old version is deleted. -/
theorem run_complete_apart :
    Complete (raceParties apartJson)
      (run (raceParties apartJson)
        (start (raceParties apartJson) ⟨apartFiles, ∅, none⟩ abcSource
          (exampleExecution 3) exampleJob) takingTurns).shared.repo := by
  refine run_complete (raceParties apartJson) ⟨apartFiles, ∅, none⟩ abcSource
    (exampleExecution 3) exampleJob takingTurns (keepsRefs_jsonOfTwo (by decide)) ?_ ?_
  · rintro h ⟨v, m, hv, hread, hh⟩
    by_cases hold : v = ⟨BitVec.ofNat 128 1⟩
    · exact absurd (hold ▸ List.mem_cons_self) hv
    · exact absurd hread (readManifest_apartFiles_of_ne hold m)
  · refine undisturbedRun_apart ?_ ?_ readManifest_apartFiles
      fun v hv m => readManifest_apartFiles_of_ne hv m
    · rw [chunkExists_apartFiles]
      decide
    · rw [chunkExists_apartFiles]
      decide

theorem chunkExists_raceShared : chunkExists "/repo" raceShared.repo abcHash := by
  rw [raceShared, chunkExists, Files.lookup_write, if_pos rfl]
  rfl

theorem readManifest_raceShared :
    readManifest "/repo" raceJson raceShared.repo ⟨BitVec.ofNat 128 1⟩ =
      .ok abcVersion := by
  have hlookup : raceShared.repo.lookup
      (manifestPath "/repo" ⟨BitVec.ofNat 128 1⟩) =
        some (Json.manifestBytes abcVersion) := by
    simp only [raceShared, Files.lookup_write,
      if_neg (manifestPath_ne_chunkPath _ _), if_pos]
  have hjson : raceJson.fromSlice (Json.manifestBytes abcVersion) =
      .ok abcVersion := by
    simp only [raceJson, if_pos]
  exact readManifest_eq_ok hlookup hjson

theorem not_chunkExists_deleteChunk (root : String) (files : Files)
    (hash : ChunkHash) :
    ¬ chunkExists root (deleteChunk root (chunkLocation hash) files) hash := by
  rw [chunkExists_deleteChunk]
  simp

/-- What is read back after the new version was written names the chunk. -/
theorem exists_readManifest_newVersion (files : Files) :
    ∃ m, readManifest "/repo" raceJson
        (deleteChunk "/repo" (chunkLocation abcHash)
          (writeManifest "/repo" raceJson ⟨exampleUuid 3⟩ newVersion files))
        ⟨exampleUuid 3⟩ = .ok m ∧
      m.chunkRefs.map ChunkReference.hash = [abcHash] := by
  have hjson : ∃ m, raceJson.fromSlice (raceJson.toVec newVersion) = .ok m := by
    simp only [raceJson]
    split
    · exact ⟨abcVersion, rfl⟩
    · exact ⟨newVersion, if_pos trivial⟩
  obtain ⟨m, hm⟩ := hjson
  refine ⟨m, ?_, chunkRefs_of_fromSlice hm⟩
  rw [readManifest_deleteChunk]
  exact readManifest_eq_ok lookup_writeManifest_self hm

/-- All chunks are there, the old version is deleted, and of the backup that
was made meanwhile the only chunk is gone. -/
theorem not_complete_after_race :
    Complete (raceParties raceJson) raceShared.repo ∧
      ∃ schedule saved reclaimed,
        (run (raceParties raceJson) raceStart schedule).backup = .ret saved ∧
        (run (raceParties raceJson) raceStart schedule).cleanup =
          .done reclaimed ∧
        ¬ Complete (raceParties raceJson)
          (run (raceParties raceJson) raceStart schedule).shared.repo := by
  constructor
  · rintro h ⟨v, m, _, hread, hh⟩
    obtain ⟨data, _, hjson⟩ := readManifest_eq_ok_iff.mp hread
    rw [chunkRefs_of_fromSlice hjson] at hh
    rw [List.mem_singleton.mp hh]
    exact chunkExists_raceShared
  · obtain ⟨schedule, saved, reclaimed, hbackup, hcleanup, hrepo⟩ :=
      exists_race chunkExists_raceShared readManifest_raceShared rfl
    refine ⟨schedule, saved, reclaimed, hbackup, hcleanup, fun hcomplete => ?_⟩
    have hfiles : (run (raceParties raceJson) raceStart schedule).shared.repo = _ :=
      hrepo
    rw [hfiles] at hcomplete
    obtain ⟨m, hread, hrefs⟩ := exists_readManifest_newVersion
      (acquireLock "/repo" (exampleUuid 4) []
        (acquireLock "/repo" (exampleUuid 5) [] raceShared.repo))
    have hexists := hcomplete abcHash
      ⟨⟨exampleUuid 3⟩, m, by decide, hread, hrefs ▸ List.mem_singleton_self abcHash⟩
    exact not_chunkExists_deleteChunk _ _ abcHash hexists

end Example

end BackupRace

end Agent
end HyperBackup
