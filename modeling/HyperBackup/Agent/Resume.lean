import HyperBackup.Agent.Engine

/-!
# Resumed backups

The journal of processed files survives from one run of a job to the next,
whether the earlier run completed, failed or was cut off.  A resumed run skips
every file that the journal reports, but builds its manifest only from the
files it processes itself.

Over every sequence of runs, a run that completes has an entry for every file
it could open exactly if none of these files was in the part of the journal
that it read when it started.
-/

namespace HyperBackup
namespace Agent
namespace Resume

open Lib Lib.Program BackupEngine

/-- One run of the job: the source it finds, what it draws, the index it
starts with and the point where it is cut off, if it is. -/
structure ResumableRun where
  source : Source
  run : Execution
  index : LocalDedupIndex
  appendsLeft : Option Nat

/-- The state in which a run starts. -/
def ResumableRun.startIn (r : ResumableRun) (s : AgentState) : AgentState :=
  { s with index := r.index, appendsLeft := r.appendsLeft }

section Runs

variable (engine : BackupEngine) (job : BackupJob)

/-- What a run leaves, however it ends. -/
def afterRun (s : AgentState) (r : ResumableRun) : AgentState :=
  stateAfter (engine.runBackupResumable r.source r.run job) (r.startIn s)

def afterRuns (s : AgentState) (runs : List ResumableRun) : AgentState :=
  runs.foldl (afterRun engine job) s

/-- The run returns, and this is the manifest it has built and written. -/
structure CompletesWith (s : AgentState) (r : ResumableRun) (m : Manifest) :
    Prop where
  built : ∃ p s₁,
    (engine.collectResumable r.source r.run job).run (r.startIn s) = .ok p s₁ ∧
      m = engine.fullManifest r.run p
  written : ∃ result s',
    (engine.runBackupResumable r.source r.run job).run (r.startIn s) =
        .ok result s' ∧
      s'.files.lookup
          (LocalRepository.manifestPath engine.root r.run.versionId) =
        some (engine.json.toVec m)

/-- The manifest has an entry for every file that could be opened. -/
def Covers (m : Manifest) (source : Source) : Prop :=
  ∀ f ∈ source.found, (source.content f.path).isSome →
    f.path ∈ m.files.map FileEntry.path

/-- No file that can be opened is in the part of the journal that is read. -/
def Unjournalled (s : AgentState) (source : Source) : Prop :=
  ∀ f ∈ source.found, (source.content f.path).isSome →
    f.path ∉ readProcessedFilesFromJournal s.journal job.jobId

end Runs

section Step

variable {engine : BackupEngine} {job : BackupJob}

/-- The files a resumed run processes. -/
def treated (processed : List String) (source : Source) (f : FileEntry) : Bool :=
  f.path ∉ processed && (source.content f.path).isSome

/-- One file of the source adds its path, unless it is skipped. -/
theorem ensures_resumeFile
    (processed : List String) (source : Source) (run : Execution)
    (acc : Progress × Nat) (f : FileEntry) (s : AgentState) :
    Ensures (engine.resumeFile processed source run job acc f) s
      (fun acc' _ => acc'.1.files.map FileEntry.path =
        acc.1.files.map FileEntry.path ++
          ([f].filter (treated processed source)).map FileEntry.path) := by
  obtain ⟨p, resumed⟩ := acc
  by_cases hmem : f.path ∈ processed
  · simp only [resumeFile, if_pos hmem]
    exact ensures_pure (by simp [treated, hmem])
  · simp only [resumeFile, if_neg hmem]
    cases hcontent : source.content f.path with
    | none =>
        exact ensures_pure (by simp [treated, hcontent])
    | some content =>
        refine ensures_bind (ensures_processFile _ job p f content) ?_
        rintro p' s₁ ⟨chunks, _, hfiles⟩
        refine ensures_bind (P := fun _ _ => True) (fun _ _ _ => trivial) ?_
        intro _ s₂ _
        refine ensures_bind (P := fun _ _ => True) (fun _ _ _ => trivial) ?_
        intro _ s₃ _
        refine ensures_pure ?_
        rw [hfiles]
        simp [treated, hmem, hcontent, completedEntry]

/-- The paths that a resumed run collects. -/
theorem ensures_collectUnprocessed
    (processed : List String) (source : Source) (run : Execution)
    (s : AgentState) :
    Ensures (engine.collectUnprocessed processed source run job) s
      (fun p _ => p.files.map FileEntry.path =
        (source.found.filter (treated processed source)).map
          FileEntry.path) := by
  refine ensures_bind (P := fun _ _ => True) (fun _ _ _ => trivial) ?_
  intro _ s₁ _
  refine ensures_bind (ensures_foldlM (scan source none)
    (fun done acc _ => acc.1.files.map FileEntry.path =
      (done.filter (treated processed source)).map FileEntry.path) rfl ?_) ?_
  · intro done f rest acc s₂ _ hacc
    refine ensures_mono (ensures_resumeFile processed source run acc f s₂) ?_
    intro acc' s₃ hacc'
    rw [hacc', hacc, List.filter_append, List.map_append]
  · intro acc s₂ hacc
    exact ensures_pure hacc

/-- A run that returns completes with a manifest. -/
theorem exists_completesWith
    {s s' : AgentState} {r : ResumableRun} {result : BackupResult}
    (hrun : (engine.runBackupResumable r.source r.run job).run (r.startIn s) =
      .ok result s') :
    ∃ m, CompletesWith engine job s r m := by
  obtain ⟨p, s₁, hcollect, hcomplete⟩ := run_bind_eq_ok.mp hrun
  exact ⟨engine.fullManifest r.run p, ⟨p, s₁, hcollect, rfl⟩,
    result, s', hrun, ensures_completeBackup r.run job p result s' hcomplete⟩

/-- A manifest that a run completes with covers the source iff no file of the
source was journalled. -/
theorem covers_iff_unjournalled
    {s : AgentState} {r : ResumableRun} {m : Manifest}
    (h : CompletesWith engine job s r m) :
    Covers m r.source ↔ Unjournalled job s r.source := by
  obtain ⟨p, s₁, hcollect, rfl⟩ := h.built
  have hpaths : (engine.fullManifest r.run p).files.map FileEntry.path =
      (r.source.found.filter (treated
        (readProcessedFilesFromJournal s.journal job.jobId) r.source)).map
          FileEntry.path :=
    ensures_collectUnprocessed _ r.source r.run (r.startIn s) p s₁ hcollect
  unfold Covers Unjournalled
  rw [hpaths]
  constructor
  · intro hcovers f hf hopen hprocessed
    obtain ⟨g, hg, hpath⟩ := List.mem_map.mp (hcovers f hf hopen)
    have htreated := (List.mem_filter.mp hg).2
    rw [treated, hpath] at htreated
    simp [hprocessed] at htreated
  · intro hunjournalled f hf hopen
    refine List.mem_map.mpr ⟨f, List.mem_filter.mpr ⟨hf, ?_⟩, rfl⟩
    simp [treated, hopen, hunjournalled f hf hopen]

end Step

section Main

variable (engine : BackupEngine) (job : BackupJob)

/-- Every run of the sequence that completes covers its source. -/
def NoFileLost (s : AgentState) (runs : List ResumableRun) : Prop :=
  ∀ before r after, runs = before ++ r :: after →
    ∀ m, CompletesWith engine job (afterRuns engine job s before) r m →
      Covers m r.source

/-- Over every sequence of runs no file is lost iff every run that completes
finds none of the files it can open in the journal it starts with. -/
theorem noFileLost_iff (s : AgentState) (runs : List ResumableRun) :
    NoFileLost engine job s runs ↔
      ∀ before r after, runs = before ++ r :: after →
        (∃ m, CompletesWith engine job (afterRuns engine job s before) r m) →
          Unjournalled job (afterRuns engine job s before) r.source := by
  constructor
  · rintro hlaw before r after hruns ⟨m, hm⟩
    exact (covers_iff_unjournalled hm).mp (hlaw before r after hruns m hm)
  · intro hcond before r after hruns m hm
    exact (covers_iff_unjournalled hm).mpr
      (hcond before r after hruns ⟨m, hm⟩)

end Main

section Example

/-- Two empty files, which can both be opened. -/
def twoFiles : Source where
  found := [exampleFile "/data/a" 0, exampleFile "/data/b" 0]
  content := fun path =>
    if path = "/data/a" ∨ path = "/data/b" then some [] else none
  totalFiles := 2

/-- A run over the two files that is cut off as given. -/
def twoFilesRun (n : Nat) (appendsLeft : Option Nat) : ResumableRun where
  source := twoFiles
  run := exampleExecution n
  index := ∅
  appendsLeft := appendsLeft

/-- An empty repository and an empty journal. -/
def freshState : AgentState where
  files := ∅
  index := ∅
  journal := some Journal.empty
  chunkIdsDrawn := 0
  appendsLeft := none

/-- What the first run leaves when it is cut off after its second append. -/
def cutOffState : AgentState :=
  { freshState with
    journal := some {
      entries := [
        .taskStarted exampleJob.jobId ⟨exampleUuid 2⟩ 1704067200,
        .fileProcessed exampleJob.jobId "/data/a" []]
      currentSize := 512 }
    appendsLeft := some 0 }

theorem processed_cutOffState :
    readProcessedFilesFromJournal cutOffState.journal exampleJob.jobId =
      ["/data/a"] := by
  decide

/-- A run that is cut off after it has journalled its first file makes the
next run lose that file. -/
theorem noFileLost_fails_after_crash :
    ¬ ∃ platform : Platform,
      NoFileLost (exampleEngine platform) exampleJob freshState
        [twoFilesRun 3 (some 1), twoFilesRun 4 none] := by
  rintro ⟨platform, hlaw⟩
  have hstate : afterRuns (exampleEngine platform) exampleJob freshState
      [twoFilesRun 3 (some 1)] = cutOffState := by
    rfl
  have hreturns : (outcome (do
      let p ← (exampleEngine platform).collectUnprocessed ["/data/a"] twoFiles
        (exampleExecution 4) exampleJob
      (exampleEngine platform).completeBackup (exampleExecution 4) exampleJob p)
      ((twoFilesRun 4 none).startIn cutOffState)).isOk = true := by
    rfl
  obtain ⟨result, s', hrun⟩ := exists_run_of_isOk hreturns
  have hresumed : ((exampleEngine platform).runBackupResumable twoFiles
      (exampleExecution 4) exampleJob).run
        ((twoFilesRun 4 none).startIn cutOffState) = .ok result s' := by
    obtain ⟨p, s₁, hcollect, hcomplete⟩ := run_bind_eq_ok.mp hrun
    rw [← processed_cutOffState] at hcollect
    exact run_bind_eq_ok.mpr ⟨p, s₁, hcollect, hcomplete⟩
  obtain ⟨m, hm⟩ := exists_completesWith (r := twoFilesRun 4 none) hresumed
  have hunjournalled := (covers_iff_unjournalled hm).mp
    (hlaw [twoFilesRun 3 (some 1)] (twoFilesRun 4 none) [] rfl m (hstate ▸ hm))
  refine hunjournalled (exampleFile "/data/a" 0) (by simp [twoFilesRun, twoFiles])
    (by simp [twoFilesRun, twoFiles, exampleFile]) ?_
  rw [processed_cutOffState]
  simp [exampleFile]

end Example

end Resume
end Agent
end HyperBackup
