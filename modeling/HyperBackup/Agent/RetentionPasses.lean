import HyperBackup.Agent.Cleanup
import HyperBackup.Agent.Restore
import HyperBackup.Agent.Retention
import HyperBackup.Lib.Simulation

/-!
# Retention passes and restores

A pass computes what a policy keeps of the versions, and hands the decision to the
cleanup.  Passes follow one another, each with its own policy, its own time and its
own versions in use.  A version that all of them keep is restored as if there had
been none, since the chunks that its manifest refers to stay where they are.

What a restore depends on are the manifest, the places of these chunks, and the
targets of its files; a cleanup touches its lock and chunks that no kept version
refers to.
-/

namespace HyperBackup
namespace Agent
namespace RetentionPasses

open Lib Lib.Program Lib.Simulation LocalRepository CleanupExecutor

/-- One pass over the repository. -/
structure Pass where
  executor : Executor
  now : DateTime
  versions : List VersionSummary
  policy : RetentionPolicy

/-- The files after a pass; a policy that is not complete removes nothing. -/
def Pass.apply (pass : Pass) (files : Files) : Files :=
  match RetentionPolicyExecutor.compute pass.now pass.versions pass.policy with
  | .error _ => files
  | .ok decision => (execute pass.executor decision files).2

theorem Pass.apply_of_compute {pass : Pass} {files : Files} {decision : RetentionDecision}
    (h : RetentionPolicyExecutor.compute pass.now pass.versions pass.policy = .ok decision) :
    pass.apply files = (execute pass.executor decision files).2 := by
  simp only [Pass.apply, h]

def applyAll (passes : List Pass) (files : Files) : Files :=
  passes.foldl (fun files pass => pass.apply files) files

/-- The pass keeps a version, unless it removes nothing. -/
def Pass.Keeps (pass : Pass) (v : VersionId) : Prop :=
  ∀ decision, RetentionPolicyExecutor.compute pass.now pass.versions pass.policy =
    .ok decision → v ∈ decision.keep

/-- The pass works on the repository, and all of its reads succeed. -/
structure Pass.WorksOn (pass : Pass) (platform : Platform) : Prop where
  root : pass.executor.root = platform.root
  json : pass.executor.json = platform.json
  reads : ∀ n, pass.executor.readFails n = false

/-- The files of a manifest have chunks that it refers to, and these are where a
repository writes them. -/
structure SelfContained (m : Manifest) : Prop where
  listed : ∀ entry ∈ m.files, ∀ h ∈ entry.chunks, h ∈ m.chunkRefs.map ChunkReference.hash
  located : ∀ h location, m.chunkLocations.lookup h.toHex = some location →
    location = chunkLocation h

section Cleanup

variable {executor : Executor} {decision : RetentionDecision} {files : Files}
variable {v : VersionId} {m : Manifest}

theorem readChunkRefs_of_read {read : Nat} (hreads : executor.readFails read = false)
    (hm : readManifest executor.root executor.json files v = .ok m) :
    readChunkRefs executor files v read = m.chunkRefs.map ChunkReference.hash := by
  simp [readChunkRefs, hreads, hm]

theorem lookup_reclaimChunk {acc : Files × List ChunkHash} {hash : ChunkHash} {p : String}
    (h : p ≠ chunkPath executor.root hash) :
    (reclaimChunk executor acc hash).1.lookup p = acc.1.lookup p := by
  unfold reclaimChunk
  split
  · next location hfind =>
      obtain ⟨rfl, -⟩ := findChunk_eq_ok hfind
      exact (Files.lookup_remove _ _ _).trans (if_neg h)
  · rfl

theorem lookup_foldl_reclaimChunk {hashes : List ChunkHash} {p : String}
    (h : ∀ hash ∈ hashes, p ≠ chunkPath executor.root hash) :
    ∀ acc : Files × List ChunkHash,
      (hashes.foldl (reclaimChunk executor) acc).1.lookup p = acc.1.lookup p := by
  induction hashes with
  | nil => exact fun acc => rfl
  | cons hash hashes ih =>
      intro acc
      rw [List.foldl_cons, ih (fun hash' hmem => h hash' (by simp [hmem])),
        lookup_reclaimChunk (h hash (by simp))]

/-- A cleanup touches its lock and the places of orphaned chunks only. -/
theorem lookup_execute {p : String} (hlock : p ≠ lockPath executor.root executor.lockId)
    (hchunks : ∀ h, h ∉ remainingChunks executor decision files →
      p ≠ chunkPath executor.root h) :
    (execute executor decision files).2.lookup p = files.lookup p := by
  have hfold := @lookup_foldl_reclaimChunk executor
    (orphaned executor decision
      (acquireLock executor.root executor.lockId executor.lockText files)) p
    (fun hash hmem => hchunks hash fun hrem => by
      refine ((mem_orphaned decision _ hash).mp hmem).2 ?_
      unfold remainingChunks at hrem ⊢
      rwa [readAllChunkRefs_acquireLock])
  refine (hfold _).trans ?_
  exact (Files.lookup_write _ _ _ _).trans (if_neg hlock)

/-- Whatever a kept version refers to is among the chunks that stay. -/
theorem mem_remainingChunks (hreads : ∀ n, executor.readFails n = false)
    (hkeep : v ∈ decision.keep)
    (hm : readManifest executor.root executor.json files v = .ok m) {h : ChunkHash}
    (hh : h ∈ m.chunkRefs.map ChunkReference.hash) :
    h ∈ remainingChunks executor decision files := by
  obtain ⟨i, hi⟩ := List.mem_iff_getElem?.mp hkeep
  unfold remainingChunks readAllChunkRefs
  refine List.mem_flatMap.mpr
    ⟨(v, (toDelete executor decision).length + i), ?_, ?_⟩
  · exact List.mk_add_mem_zipIdx_iff_getElem?.mpr hi
  · rw [readChunkRefs_of_read (hreads _) hm]
    exact hh

end Cleanup

section Restores

variable (platform : Platform) (job : RestoreJob) (m : Manifest)

/-- What a restore of a self-contained manifest depends on. -/
def Used (p : String) : Prop :=
  p = manifestPath platform.root job.sourceVersionId ∨
    (∃ h ∈ m.chunkRefs.map ChunkReference.hash, p = chunkPath platform.root h) ∨
    ∃ entry ∈ m.files,
      p = Restore.computeTargetPath job.targetLocation entry.path job.restoreMode

/-- The files that a restore depends on are the same. -/
def Agree (files files' : Files) : Prop :=
  ∀ p, Used platform job m p → files.lookup p = files'.lookup p

variable {platform job m} {files files' : Files}

theorem locateChunk_eq (hm : SelfContained m) (files : Files) (h : ChunkHash) :
    Restore.locateChunk platform files m h = chunkLocation h := by
  unfold Restore.locateChunk
  split
  · next location hlocation => exact hm.located h location hlocation
  · split
    · next location hfind => exact (findChunk_eq_ok hfind).1
    · rfl

theorem readFileData_congr (hm : SelfContained m) (hagree : Agree platform job m files files')
    {chunks : List ChunkHash}
    (hchunks : ∀ h ∈ chunks, h ∈ m.chunkRefs.map ChunkReference.hash) :
    Restore.readFileData platform files m chunks =
      Restore.readFileData platform files' m chunks := by
  refine foldlM_congr (fun h hmem fileData => ?_) []
  rw [locateChunk_eq hm, locateChunk_eq hm,
    Restore.fetchChunk_congr (hagree _ (.inr (.inl ⟨h, hchunks h hmem, rfl⟩)))]

theorem Agree.write (hagree : Agree platform job m files files') (p : String) (data : Bytes) :
    Agree platform job m (Files.write files p data) (Files.write files' p data) := by
  intro q hq
  rw [Files.lookup_write, Files.lookup_write, hagree q hq]

theorem alike_restoreFile (hm : SelfContained m) (hagree : Agree platform job m files files')
    (r : RestoreResult) {entry : FileEntry} (hentry : entry ∈ m.files) :
    Alike (Agree platform job m) (Restore.restoreFile platform job m r entry) files
      (Restore.restoreFile platform job m r entry) files' := by
  have htarget := hagree _ (.inr (.inr ⟨entry, hentry, rfl⟩))
  have hdata := readFileData_congr hm hagree (hm.listed entry hentry)
  refine alike_get_bind ?_
  simp only [htarget, hdata]
  by_cases hskip : job.restoreMode = .skip ∧ (files'.lookup
      (Restore.computeTargetPath job.targetLocation entry.path job.restoreMode)).isSome
  · rw [if_pos hskip]
    exact alike_pure _ hagree
  · rw [if_neg hskip]
    refine alike_bind (alike_ofResult _ _ hagree) fun fileData s t hst => ?_
    refine alike_bind (alike_modify (hst.write _ _)) fun _ s' t' hst' => ?_
    split
    · exact alike_pure _ hst'
    · exact alike_pure _ hst'

theorem mem_files_of_mem_planFiles {selection : FileSelection} {entry : FileEntry}
    (h : entry ∈ Restore.planFiles m selection) : entry ∈ m.files := by
  cases selection with
  | all => exact h
  | fileList paths => exact (List.mem_filter.mp h).1
  | glob pattern => exact (List.mem_filter.mp h).1
  | search query => exact (List.mem_filter.mp h).1
  | pathPrefix start => exact (List.mem_filter.mp h).1
  | dateRange start stop => exact (List.mem_filter.mp h).1

/-- A restore acts alike wherever the files that it depends on are the same. -/
theorem alike_runRestore (hm : SelfContained m)
    (hread : readManifest platform.root platform.json files job.sourceVersionId = .ok m)
    (hagree : Agree platform job m files files') :
    Alike (Agree platform job m) (Restore.runRestore platform job) files
      (Restore.runRestore platform job) files' := by
  have hread' : readManifest platform.root platform.json files' job.sourceVersionId = .ok m := by
    rw [← hread]
    simp only [readManifest, readFile, hagree _ (.inl rfl)]
  refine alike_get_bind ?_
  rw [hread, hread']
  exact alike_foldlM _ (fun r entry hentry s t hst =>
    alike_restoreFile hm hst r (mem_files_of_mem_planFiles hentry)) _ _ _ hagree

end Restores

section Passes

variable {platform : Platform} {job : RestoreJob} {m : Manifest} {pass : Pass}
variable {passes : List Pass} {files : Files}

/-- The files of a restore are neither locks nor chunks of the repository. -/
def Outside (platform : Platform) (job : RestoreJob) (m : Manifest) : Prop :=
  ∀ entry ∈ m.files,
    (∀ lockId, Restore.computeTargetPath job.targetLocation entry.path job.restoreMode ≠
      lockPath platform.root lockId) ∧
    ∀ h, Restore.computeTargetPath job.targetLocation entry.path job.restoreMode ≠
      chunkPath platform.root h

theorem lockPath_ne_of_used (houtside : Outside platform job m) {p : String}
    (hp : Used platform job m p) (lockId : Uuid) : p ≠ lockPath platform.root lockId := by
  rcases hp with hp | ⟨h, -, hp⟩ | ⟨entry, hentry, hp⟩
  · rw [hp]
    exact (lockPath_ne_manifestPath lockId _ _).symm
  · rw [hp]
    exact (lockPath_ne_chunkPath lockId h _).symm
  · rw [hp]
    exact (houtside entry hentry).1 lockId

/-- A cleanup that keeps a version leaves alone whatever its restore depends on. -/
theorem agree_execute {executor : Executor} {decision : RetentionDecision}
    (hroot : executor.root = platform.root) (houtside : Outside platform job m)
    (hrefs : ∀ h ∈ m.chunkRefs.map ChunkReference.hash,
      h ∈ remainingChunks executor decision files) :
    Agree platform job m files (execute executor decision files).2 := by
  intro p hp
  refine (lookup_execute ?_ ?_).symm
  · rw [hroot]
    exact lockPath_ne_of_used houtside hp _
  · intro h hnot
    rw [hroot]
    rcases hp with hp | ⟨h', hh', hp⟩ | ⟨entry, hentry, hp⟩
    · rw [hp]
      exact manifestPath_ne_chunkPath _ _
    · rw [hp]
      intro heq
      have hsame : h' = h := chunkPath_injective heq
      exact hnot (hsame ▸ hrefs h' hh')
    · rw [hp]
      exact (houtside entry hentry).2 h

theorem agree_apply (hworks : pass.WorksOn platform) (hkeeps : pass.Keeps job.sourceVersionId)
    (houtside : Outside platform job m)
    (hread : readManifest platform.root platform.json files job.sourceVersionId = .ok m) :
    Agree platform job m files (pass.apply files) := by
  have hread' : readManifest pass.executor.root pass.executor.json files
      job.sourceVersionId = .ok m := by
    rw [hworks.root, hworks.json, hread]
  cases hdecision : RetentionPolicyExecutor.compute pass.now pass.versions pass.policy with
  | error e =>
      simp only [Pass.apply, hdecision]
      exact fun p hp => rfl
  | ok decision =>
      rw [Pass.apply_of_compute hdecision]
      refine agree_execute hworks.root houtside fun h hh => ?_
      exact mem_remainingChunks hworks.reads (hkeeps decision hdecision) hread' hh

theorem agree_applyAll (hworks : ∀ pass ∈ passes, pass.WorksOn platform)
    (hkeeps : ∀ pass ∈ passes, pass.Keeps job.sourceVersionId)
    (houtside : Outside platform job m)
    (hread : readManifest platform.root platform.json files job.sourceVersionId = .ok m) :
    Agree platform job m files (applyAll passes files) := by
  induction passes generalizing files with
  | nil => exact fun p hp => rfl
  | cons pass passes ih =>
      have hfirst := agree_apply (hworks pass (by simp)) (hkeeps pass (by simp)) houtside hread
      have hread' : readManifest platform.root platform.json (pass.apply files)
          job.sourceVersionId = .ok m := by
        rw [← hread]
        simp only [readManifest, readFile, hfirst _ (.inl rfl)]
      have hrest := ih (fun pass hmem => hworks pass (by simp [hmem]))
        (fun pass hmem => hkeeps pass (by simp [hmem])) hread'
      exact fun p hp => (hfirst p hp).trans (hrest p hp)

/-- A version that every pass keeps is restored after the passes as before them:
with the same result, and with the same files at the targets. -/
theorem restore_after_passes (hworks : ∀ pass ∈ passes, pass.WorksOn platform)
    (hkeeps : ∀ pass ∈ passes, pass.Keeps job.sourceVersionId)
    (hread : readManifest platform.root platform.json files job.sourceVersionId = .ok m)
    (hm : SelfContained m) (houtside : Outside platform job m) :
    outcome (Restore.runRestore platform job) (applyAll passes files) =
        outcome (Restore.runRestore platform job) files ∧
      ∀ entry ∈ m.files,
        (stateAfter (Restore.runRestore platform job) (applyAll passes files)).lookup
            (Restore.computeTargetPath job.targetLocation entry.path job.restoreMode) =
          (stateAfter (Restore.runRestore platform job) files).lookup
            (Restore.computeTargetPath job.targetLocation entry.path job.restoreMode) := by
  obtain ⟨hout, hstate⟩ := alike_runRestore hm hread
    (agree_applyAll hworks hkeeps houtside hread)
  exact ⟨hout.symm, fun entry hentry => (hstate _ (.inr (.inr ⟨entry, hentry, rfl⟩))).symm⟩

/-- A version with one file, which has the chunk of `abc`. -/
def keptManifest : Manifest where
  versionId := ⟨1⟩
  timestamp := BackupEngine.exampleTime
  parentVersionId := none
  versionNumber := 1
  backupType := .full
  files := [{ BackupEngine.exampleFile "/data/report" 3 with
    chunks := [BackupEngine.abcHash] }]
  chunkRefs := [{
    hash := BackupEngine.abcHash
    versionId := ⟨1⟩
    filePath := "/data/report"
    offset := 0 }]
  hashes := {
    manifestHash := zeroDigest
    fileIndexHash := zeroDigest
    chunkIndexHash := zeroDigest
    repoHash := zeroDigest }
  chunkLocations := ∅

/-- An older version, which shares this chunk and has another. -/
def deletedManifest : Manifest :=
  { keptManifest with
    versionId := ⟨2⟩
    timestamp := 0
    chunkRefs := [{
      hash := BackupEngine.abcHash
      versionId := ⟨2⟩
      filePath := "/data/report"
      offset := 0 }, {
      hash := .ofEmpty
      versionId := ⟨2⟩
      filePath := "/data/notes"
      offset := 0 }] }

/-- Both versions and both chunks. -/
def keptFiles : Files :=
  Files.write (Files.write (Files.write (Files.write ∅
    (chunkPath "/repo" BackupEngine.abcHash)
    (encodeEncryptedChunk BackupEngine.abcEncrypted))
    (chunkPath "/repo" .ofEmpty) (List.replicate 28 0))
    (manifestPath "/repo" ⟨2⟩) (Json.manifestBytes deletedManifest))
    (manifestPath "/repo" ⟨1⟩) (Json.manifestBytes keptManifest)

/-- JSON reads both versions back. -/
def keptJson : ManifestJson :=
  BackupEngine.exampleJsonOf [keptManifest, deletedManifest]

def keptPlatform : Platform :=
  { BackupEngine.examplePlatform keptManifest with json := keptJson }

def keptJob : RestoreJob where
  sourceVersionId := ⟨1⟩
  fileSelection := .all
  restoreMode := .newLocation
  targetLocation := "/restore"

def twoSummaries : List VersionSummary :=
  [{ versionId := 1
     versionNumber := 2
     timestamp := BackupEngine.exampleTime
     backupType := .full
     totalSize := 3
     storedSize := 40 },
   { versionId := 2
     versionNumber := 1
     timestamp := 0
     backupType := .full
     totalSize := 3
     storedSize := 40 }]

/-- A pass that keeps the given number of versions. -/
def keepLastPass (n : Nat) : Pass where
  executor := {
    root := "/repo"
    json := keptJson
    inUseVersions := []
    readFails := fun _ => false
    order := .asStored
    lockId := 3
    lockText := [] }
  now := BackupEngine.exampleTime
  versions := twoSummaries
  policy := {
    mode := .keepLastN
    keepLastN := some n
    timeBasedRetention := none
    gfsConfig := none
    smartRules := none }

theorem compute_keepLastPass (n : Nat) :
    RetentionPolicyExecutor.compute (keepLastPass (n + 1)).now (keepLastPass (n + 1)).versions
      (keepLastPass (n + 1)).policy =
        .ok { keep := ⟨1⟩ :: if n = 0 then [] else [⟨2⟩]
              delete := if n = 0 then [⟨2⟩] else [] } := by
  have hsorted : RetentionPolicyExecutor.sorted twoSummaries = twoSummaries :=
    List.mergeSort_of_pairwise (by decide)
  simp only [RetentionPolicyExecutor.compute, keepLastPass, hsorted]
  cases n with
  | zero => rfl
  | succ n => rfl

theorem keeps_keepLastPass (n : Nat) : (keepLastPass (n + 1)).Keeps ⟨1⟩ := by
  intro decision hdecision
  rw [compute_keepLastPass] at hdecision
  obtain rfl := Except.ok.inj hdecision
  exact List.mem_cons_self

theorem outside_keptManifest :
    Outside keptPlatform keptJob keptManifest := by
  intro entry hentry
  obtain rfl := List.mem_singleton.mp hentry
  have htarget : Restore.computeTargetPath keptJob.targetLocation "/data/report"
      keptJob.restoreMode = Path.join "/restore" ("r" ++ "eport") := by
    decide +kernel
  refine ⟨fun lockId heq => ?_, fun h heq => ?_⟩
  · have hpath := htarget.symm.trans heq
    exact absurd (Path.join_right_suffix_injective (by decide) hpath) (by decide)
  · have hname : chunkFilename h = (h.toHex ++ ".") ++ "chunk" := by
      rw [String.append_assoc]
      rfl
    have hpath := htarget.symm.trans heq
    unfold chunkPath locationPath chunkLocation at hpath
    rw [hname] at hpath
    exact absurd (Path.join_right_suffix_injective (by decide) hpath) (by decide)

theorem lookup_keptFiles :
    keptFiles.lookup (manifestPath "/repo" ⟨1⟩) =
      some (Json.manifestBytes keptManifest) := by
  rw [keptFiles, Files.lookup_write]
  simp only [if_true]

theorem lookup_keptFiles_deleted :
    keptFiles.lookup (manifestPath "/repo" ⟨2⟩) =
      some (Json.manifestBytes deletedManifest) := by
  have hpath : manifestPath "/repo" ⟨2⟩ ≠ manifestPath "/repo" ⟨1⟩ := by
    intro heq
    exact absurd (manifestPath_injective heq) (by decide)
  rw [keptFiles, Files.lookup_write, if_neg hpath, Files.lookup_write]
  simp only [if_true]

theorem fromSlice_keptJson :
    keptJson.fromSlice (Json.manifestBytes keptManifest) = .ok keptManifest ∧
      keptJson.fromSlice (Json.manifestBytes deletedManifest) = .ok deletedManifest := by
  rw [keptJson]
  exact BackupEngine.fromSlice_exampleJsonOf (by decide)

theorem readManifest_keptFiles :
    readManifest "/repo" keptJson keptFiles ⟨1⟩ = .ok keptManifest :=
  readManifest_eq_ok lookup_keptFiles fromSlice_keptJson.1

theorem readManifest_keptFiles_deleted :
    readManifest "/repo" keptJson keptFiles ⟨2⟩ = .ok deletedManifest :=
  readManifest_eq_ok lookup_keptFiles_deleted fromSlice_keptJson.2

/-- What the first pass decides. -/
def keepFirst : RetentionDecision :=
  { keep := [⟨1⟩], delete := [⟨2⟩] }

theorem compute_keepFirst :
    RetentionPolicyExecutor.compute (keepLastPass 1).now (keepLastPass 1).versions
      (keepLastPass 1).policy = .ok keepFirst :=
  compute_keepLastPass 0

theorem readChunkRefs_kept (read : Nat) :
    readChunkRefs (keepLastPass 1).executor keptFiles ⟨1⟩ read =
      keptManifest.chunkRefs.map ChunkReference.hash :=
  @readChunkRefs_of_read (keepLastPass 1).executor keptFiles ⟨1⟩ keptManifest read rfl
    readManifest_keptFiles

theorem readChunkRefs_deleted (read : Nat) :
    readChunkRefs (keepLastPass 1).executor keptFiles ⟨2⟩ read =
      deletedManifest.chunkRefs.map ChunkReference.hash :=
  @readChunkRefs_of_read (keepLastPass 1).executor keptFiles ⟨2⟩ deletedManifest read rfl
    readManifest_keptFiles_deleted

theorem orphaned_keepFirst :
    ChunkHash.ofEmpty ∈ chunksInDeleted (keepLastPass 1).executor keepFirst keptFiles ∧
      ChunkHash.ofEmpty ∉ remainingChunks (keepLastPass 1).executor keepFirst keptFiles := by
  constructor
  · refine List.mem_flatMap.mpr ⟨(⟨2⟩, 0), List.mem_cons_self, ?_⟩
    rw [readChunkRefs_deleted]
    exact List.mem_cons_of_mem _ List.mem_cons_self
  · intro hmem
    obtain ⟨e, he, hin⟩ := List.mem_flatMap.mp hmem
    obtain rfl := List.mem_singleton.mp he
    rw [readChunkRefs_kept] at hin
    have hother : ChunkHash.ofEmpty = BackupEngine.abcHash := List.mem_singleton.mp hin
    exact absurd hother (by decide)

/-- The first pass removes the chunk that only the older version has. -/
theorem not_chunkExists_keepLastPass :
    ¬ chunkExists (keepLastPass 1).executor.root ((keepLastPass 1).apply keptFiles)
      .ofEmpty := by
  rw [Pass.apply_of_compute compute_keepFirst]
  intro hexists
  exact ((@chunkExists_execute (keepLastPass 1).executor keepFirst keptFiles
    .ofEmpty).mp hexists).2 orphaned_keepFirst

/-- The first pass deletes the older version with the chunk that only it has. -/
theorem restore_after_keepLast :
    outcome (Restore.runRestore keptPlatform keptJob)
        (applyAll [keepLastPass 1, keepLastPass 2] keptFiles) =
      outcome (Restore.runRestore keptPlatform keptJob) keptFiles ∧
    ¬ chunkExists (keepLastPass 1).executor.root (applyAll [keepLastPass 1] keptFiles)
      .ofEmpty := by
  refine ⟨(@restore_after_passes keptPlatform keptJob keptManifest
    [keepLastPass 1, keepLastPass 2] keptFiles ?_ ?_ readManifest_keptFiles ?_
    outside_keptManifest).1, not_chunkExists_keepLastPass⟩
  · intro pass hpass
    rw [List.mem_cons, List.mem_singleton] at hpass
    obtain rfl | rfl := hpass
    · exact ⟨rfl, rfl, fun _ => rfl⟩
    · exact ⟨rfl, rfl, fun _ => rfl⟩
  · intro pass hpass
    rw [List.mem_cons, List.mem_singleton] at hpass
    obtain rfl | rfl := hpass
    · exact keeps_keepLastPass 0
    · exact keeps_keepLastPass 1
  · refine ⟨?_, fun h location hlocation => by cases hlocation⟩
    intro entry hentry h hh
    obtain rfl := List.mem_singleton.mp hentry
    exact hh

end Passes

end RetentionPasses
end Agent
end HyperBackup
