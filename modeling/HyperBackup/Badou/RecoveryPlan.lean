import HyperBackup.Badou.CommitCrash

/-!
# Planning a recovery from the journal

After a crash the journal is scanned for what has not been completed.  The
scan takes every entry without the committed flag, one by one, and the type of
the entry decides what is to be done about it.

A commit appends up to five entries, of which only the last one has the flag.
So the entries that a commit has appended before its last one are planned for
recovery, also when the commit is complete.
-/

namespace HyperBackup
namespace Badou

open Lib

structure UncompletedOp where
  jobId : Uuid
  opType : JournalOpType
  payload : Bytes
deriving DecidableEq

inductive RecoveryAction
  | cleanStaging
  | rerunGc
  | markVerifyIncomplete
  | continueStateTransition
  | skip
deriving DecidableEq

namespace RecoveryPlan

section Plan

/-- What the plan takes from an entry. -/
def uncompleted (e : BadouJournalEntry) : UncompletedOp where
  jobId := e.jobId
  opType := e.opType
  payload := e.payload

def scanUncompleted (entries : List BadouJournalEntry) : List UncompletedOp :=
  (entries.filter fun e => !e.committed).map uncompleted

def classifyRecovery (op : UncompletedOp) : RecoveryAction :=
  match op.opType with
  | .commitStep => .cleanStaging
  | .gcStep => .rerunGc
  | .verifyStep => .markVerifyIncomplete
  | .stateTransition => .continueStateTransition
  | .recovery => .skip

def planRecovery (entries : List BadouJournalEntry) :
    List (UncompletedOp × RecoveryAction) :=
  (scanUncompleted entries).map fun op => (op, classifyRecovery op)

/-- Every entry without the flag is planned. -/
theorem mem_planRecovery {entries : List BadouJournalEntry}
    {entry : BadouJournalEntry} (hmem : entry ∈ entries)
    (hcommitted : entry.committed = false) :
    (uncompleted entry, classifyRecovery (uncompleted entry)) ∈
      planRecovery entries := by
  refine List.mem_map.mpr ⟨_, List.mem_map.mpr ⟨entry, ?_, rfl⟩, rfl⟩
  exact List.mem_filter.mpr ⟨hmem, by simp [hcommitted]⟩

end Plan

section Traces

/-- What an entry says apart from its job and its time. -/
structure Shape where
  opType : JournalOpType
  payload : String
  committed : Bool

/-- The entry of a job with a shape. -/
def Shape.HasEntry (shape : Shape) (job : Uuid) (entry : BadouJournalEntry) :
    Prop :=
  entry.jobId = job ∧ entry.opType = shape.opType ∧
    entry.payload = Hex.utf8 shape.payload ∧ entry.committed = shape.committed

def startShape : Shape :=
  ⟨.commitStep, "start", false⟩

/-- The entries of a commit that succeeds. -/
def successShapes : List Shape :=
  [startShape,
    ⟨.commitStep, "chunks_written", false⟩,
    ⟨.verifyStep, "verified", false⟩,
    ⟨.commitStep, "staging_committed", false⟩,
    ⟨.commitStep, "sealed", true⟩]

/-- The entries of a commit whose verification fails. -/
def failureShapes : List Shape :=
  [startShape,
    ⟨.commitStep, "chunks_written", false⟩,
    ⟨.recovery, "chunk hash verification failed", false⟩]

/-- The first entries of a commit of the job, at any times. -/
def Trace (job : Uuid) (entries : List BadouJournalEntry) : Prop :=
  ∃ shapes, (shapes <+: successShapes ∨ shapes <+: failureShapes) ∧
    List.Forall₂ (fun shape entry => shape.HasEntry job entry) shapes entries

/-- The entries of a job. -/
def entriesOf (journal : List BadouJournalEntry) (job : Uuid) :
    List BadouJournalEntry :=
  journal.filter fun entry => entry.jobId = job

/-- A journal of commits at the same time: each commit appends one entry after
the other and may stop after any of them. -/
inductive Journal : List BadouJournalEntry → Prop
  | empty : Journal []
  | append {journal : List BadouJournalEntry} {entry : BadouJournalEntry}
      (before : Journal journal)
      (next : Trace entry.jobId (entriesOf journal entry.jobId ++ [entry])) :
      Journal (journal ++ [entry])

theorem entriesOf_concat (journal : List BadouJournalEntry)
    (entry : BadouJournalEntry) (job : Uuid) :
    entriesOf (journal ++ [entry]) job =
      entriesOf journal job ++ if entry.jobId = job then [entry] else [] := by
  unfold entriesOf
  rw [List.filter_append]
  by_cases hjob : entry.jobId = job
  · simp [hjob]
  · simp [hjob]

/-- In the journal the entries of each job are the first entries of its
commit. -/
theorem Journal.trace {journal : List BadouJournalEntry} (h : Journal journal)
    (job : Uuid) : Trace job (entriesOf journal job) := by
  induction h with
  | empty =>
      exact ⟨[], Or.inl (List.nil_prefix), .nil⟩
  | @append journal entry before next ih =>
      rw [entriesOf_concat]
      by_cases hjob : entry.jobId = job
      · subst hjob
        rwa [if_pos rfl]
      · rwa [if_neg hjob, List.append_nil]

/-- A commit that stops early leaves a trace, too. -/
theorem Trace.of_initial {job : Uuid} {entries entries' : List BadouJournalEntry}
    (h : Trace job entries) (hinit : entries' <+: entries) :
    Trace job entries' := by
  obtain ⟨shapes, hshapes, hentries⟩ := h
  refine ⟨shapes.take entries'.length, ?_, ?_⟩
  · exact hshapes.imp (List.take_prefix _ _).trans (List.take_prefix _ _).trans
  · have hfirst := List.forall₂_take entries'.length hentries
    rwa [← List.prefix_iff_eq_take.mp hinit] at hfirst

/-- Any mixture of the entries of commits is such a journal. -/
theorem Journal.of_trace {journal : List BadouJournalEntry}
    (h : ∀ job, Trace job (entriesOf journal job)) : Journal journal := by
  induction journal using List.reverseRecOn with
  | nil =>
      exact .empty
  | append_singleton journal entry ih =>
      refine .append (ih fun job => ?_) ?_
      · refine (h job).of_initial ?_
        rw [entriesOf_concat]
        exact List.prefix_append _ _
      · have hentry := h entry.jobId
        rwa [entriesOf_concat, if_pos rfl] at hentry

/-- The first entry of a commit has no flag and asks to clean its staging
area. -/
theorem Trace.exists_start {job : Uuid} {entries : List BadouJournalEntry}
    (h : Trace job entries) (hne : entries ≠ []) :
    ∃ entry ∈ entries, startShape.HasEntry job entry := by
  obtain ⟨shapes, hshapes, hentries⟩ := h
  cases hentries with
  | nil =>
      exact absurd rfl hne
  | @cons shape entry shapes entries hfirst hrest =>
      have hstart : shape = startShape := by
        rcases hshapes with hshapes | hshapes
        · exact (List.cons_prefix_cons.mp hshapes).1
        · exact (List.cons_prefix_cons.mp hshapes).1
      rw [hstart] at hfirst
      exact ⟨entry, List.mem_cons_self, hfirst⟩

end Traces

section Commits

open CommitCrash

/-- The entry that an operation appends. -/
def appended : FsOp → Option BadouJournalEntry
  | .appendJournal entry => some entry
  | _ => none

variable {layout : BadouDataLayout} {repoId : RepositoryId}
variable {blake3 : Bytes → ChunkHash} {json : Json} {draws : CommitDraws}
variable {parent : Option VersionId} {manifest : Manifest}
variable {snapshot : Snapshot} {chunks : List (ChunkHash × Bytes)}
variable {s : CommitState}

theorem journal_exec (op : FsOp) (d : RepoDisk) :
    (exec layout repoId op d).journal = d.journal ++ (appended op).toList := by
  cases op with
  | appendJournal entry =>
      rfl
  | renameStaged side v name =>
      simp only [exec, appended, Option.toList_none, List.append_nil]
      split
      · rfl
      · split
        · rfl
        · rfl
  | rename side source target =>
      simp only [exec, appended, Option.toList_none, List.append_nil]
      split
      · rfl
      · rfl
  | _ => exact (List.append_nil _).symm

/-- The journal after some operations. -/
theorem journal_run (ops : List FsOp) (d : RepoDisk) :
    (Lib.Trace.run (exec layout repoId) ops d).journal =
      d.journal ++ ops.filterMap appended := by
  induction ops generalizing d with
  | nil =>
      simp
  | cons op ops ih =>
      rw [Lib.Trace.run_cons, ih, journal_exec, List.append_assoc,
        List.filterMap_cons]
      cases appended op with
      | none =>
          rfl
      | some entry =>
          rfl

/-- The entries of a commit, depending on how its verification goes. -/
theorem trace_endOps (result : Except ChunkStoreError Bool) :
    ∃ shapes, (startShape :: ⟨.commitStep, "chunks_written", false⟩ :: shapes <+:
        successShapes ∨
      startShape :: ⟨.commitStep, "chunks_written", false⟩ :: shapes <+:
        failureShapes) ∧
      List.Forall₂ (fun shape entry => shape.HasEntry draws.versionId.uuid entry)
        shapes ((endOps blake3 json draws manifest snapshot result).filterMap
          appended) := by
  cases result with
  | error e =>
      exact ⟨[], Or.inl (by simp [successShapes]), .nil⟩
  | ok verified =>
      cases verified with
      | false =>
          refine ⟨[⟨.recovery, "chunk hash verification failed", false⟩],
            Or.inr (List.prefix_refl _), ?_⟩
          exact .cons ⟨rfl, rfl, rfl, rfl⟩ .nil
      | true =>
          refine ⟨[⟨.verifyStep, "verified", false⟩,
            ⟨.commitStep, "staging_committed", false⟩,
            ⟨.commitStep, "sealed", true⟩], Or.inl (List.prefix_refl _), ?_⟩
          exact .cons ⟨rfl, rfl, rfl, rfl⟩ (.cons ⟨rfl, rfl, rfl, rfl⟩
            (.cons ⟨rfl, rfl, rfl, rfl⟩ .nil))

theorem filterMap_appended_writeOps (st : Store) :
    (writeOps layout repoId blake3 json draws manifest snapshot chunks st).filterMap
        appended =
      { opType := .commitStep
        timestamp := draws.now
        jobId := draws.versionId.uuid
        payload := Hex.utf8 "chunks_written"
        committed := false } ::
      (endOps blake3 json draws manifest snapshot
        (CommitBackup.verifyChunks blake3 (Program.stateAfter
          (ChunkStore.writeChunks layout repoId chunks) st) chunks)).filterMap
        appended := by
  have hchunks : (chunks.map fun c => FsOp.writeChunk c.1 c.2).filterMap appended =
      [] := by
    rw [List.filterMap_map]
    exact List.filterMap_eq_nil_iff.mpr fun c _ => rfl
  rw [writeOps, List.filterMap_cons_none rfl, List.filterMap_cons_none rfl,
    List.filterMap_append, hchunks, List.nil_append, List.filterMap_cons_none rfl]
  exact List.filterMap_cons_some rfl

/-- What a commit appends to the journal is a trace. -/
theorem trace_commitOps :
    Trace draws.versionId.uuid ((commitOps layout repoId blake3 json draws parent
      manifest snapshot chunks s).filterMap appended) := by
  unfold commitOps
  split
  · exact ⟨[], Or.inl List.nil_prefix, .nil⟩
  · rw [List.filterMap_cons]
    simp only [appended, journalOp]
    split
    · refine ⟨[startShape], Or.inl (by simp [successShapes]), ?_⟩
      exact .cons ⟨rfl, rfl, rfl, rfl⟩ .nil
    · rw [filterMap_appended_writeOps]
      obtain ⟨shapes, hinit, hentries⟩ := trace_endOps
        (CommitBackup.verifyChunks blake3 (Program.stateAfter
          (ChunkStore.writeChunks layout repoId chunks) s.repo.store) chunks)
      exact ⟨_, hinit, .cons ⟨rfl, rfl, rfl, rfl⟩
        (.cons ⟨rfl, rfl, rfl, rfl⟩ hentries)⟩

/-- The journal after a commit that was cut off after any of its operations. -/
theorem exists_trace_crash (k : Nat) :
    ∃ entries, Trace draws.versionId.uuid entries ∧
      (Lib.Trace.run (exec layout repoId) ((commitOps layout repoId blake3 json
        draws parent manifest snapshot chunks s).take k) (diskOf s)).journal =
          s.repo.journal ++ entries := by
  have hinit : ((commitOps layout repoId blake3 json draws parent manifest
      snapshot chunks s).take k).filterMap appended <+:
        (commitOps layout repoId blake3 json draws parent manifest snapshot chunks
          s).filterMap appended :=
    (List.take_prefix _ _).filterMap appended
  exact ⟨_, trace_commitOps.of_initial hinit, journal_run _ _⟩

/-- The journal after a commit. -/
theorem exists_trace_commitBackup :
    ∃ entries, Trace draws.versionId.uuid entries ∧
      (Program.stateAfter (CommitBackup.commitBackup layout blake3 json draws
        repoId parent manifest snapshot chunks) s).repo.journal =
          s.repo.journal ++ entries := by
  refine ⟨(commitOps layout repoId blake3 json draws parent manifest snapshot
    chunks s).filterMap appended, trace_commitOps, ?_⟩
  exact (congrArg RepoDisk.journal performs_commitBackup).trans (journal_run _ _)

end Commits

section Exact

/-- The commit of the job has reached its last entry. -/
def Sealed (journal : List BadouJournalEntry) (job : Uuid) : Prop :=
  ∃ entry ∈ journal, entry.jobId = job ∧ entry.opType = .commitStep ∧
    entry.payload = Hex.utf8 "sealed" ∧ entry.committed = true

/-- The plan has an operation of a job with entries in the journal exactly if
its commit has not reached its last entry, and never cleans the staging area of
a commit that has. -/
def PlanExact (journal : List BadouJournalEntry) : Prop :=
  ∀ job, (∃ entry ∈ journal, entry.jobId = job) →
    ((∃ step ∈ planRecovery journal, step.1.jobId = job) ↔
      ¬ Sealed journal job) ∧
    (Sealed journal job → ∀ step ∈ planRecovery journal,
      step.1.jobId = job → step.2 ≠ .cleanStaging)

/-- Every job in the journal is planned for recovery. -/
theorem exists_mem_planRecovery {journal : List BadouJournalEntry} {job : Uuid}
    (h : Journal journal) (hjob : ∃ entry ∈ journal, entry.jobId = job) :
    ∃ step ∈ planRecovery journal, step.1.jobId = job ∧
      step.2 = .cleanStaging := by
  obtain ⟨entry, hentry, hjobId⟩ := hjob
  have hne : entriesOf journal job ≠ [] :=
    List.ne_nil_of_mem (List.mem_filter.mpr ⟨hentry, by simpa using hjobId⟩)
  obtain ⟨first, hfirst, hid, hop, -, hflag⟩ := (h.trace job).exists_start hne
  have hmem := mem_planRecovery (List.mem_of_mem_filter hfirst) hflag
  refine ⟨_, hmem, hid, ?_⟩
  rw [classifyRecovery, uncompleted, hop]
  rfl

/-- A commit that has reached its last entry is still planned. -/
theorem not_planExact_of_sealed {journal : List BadouJournalEntry} {job : Uuid}
    (h : Journal journal) (hsealed : Sealed journal job) :
    ¬ PlanExact journal := by
  intro hexact
  have hjob : ∃ entry ∈ journal, entry.jobId = job := by
    obtain ⟨entry, hentry, hjobId, -⟩ := hsealed
    exact ⟨entry, hentry, hjobId⟩
  obtain ⟨step, hstep, hstepJob, -⟩ := exists_mem_planRecovery h hjob
  exact (hexact job hjob).1.mp ⟨step, hstep, hstepJob⟩ hsealed

/-- The plan for a journal of commits is exact exactly if no commit in it has
reached its last entry. -/
theorem planExact_iff {journal : List BadouJournalEntry} (h : Journal journal) :
    PlanExact journal ↔ ∀ job, ¬ Sealed journal job := by
  constructor
  · intro hexact job hsealed
    exact not_planExact_of_sealed h hsealed hexact
  · intro hnone job hjob
    obtain ⟨step, hstep, hstepJob, -⟩ := exists_mem_planRecovery h hjob
    refine ⟨iff_of_true ⟨step, hstep, hstepJob⟩ (hnone job), ?_⟩
    intro hsealed
    exact absurd hsealed (hnone job)

end Exact

section Example

/-- The entry of a shape in the commit of version 1. -/
def Shape.entry (shape : Shape) : BadouJournalEntry where
  opType := shape.opType
  timestamp := 1700000000000000000
  jobId := 1
  payload := Hex.utf8 shape.payload
  committed := shape.committed

/-- The journal of a single commit that succeeds or stops before. -/
theorem journal_of_initial {shapes : List Shape} (h : shapes <+: successShapes) :
    Journal (shapes.map Shape.entry) := by
  refine .of_trace fun job => ?_
  unfold entriesOf
  by_cases hjob : (1 : Uuid) = job
  · subst hjob
    rw [List.filter_eq_self.mpr]
    · refine ⟨shapes, Or.inl h, ?_⟩
      rw [List.forall₂_map_right_iff, List.forall₂_same]
      exact fun _ _ => ⟨rfl, rfl, rfl, rfl⟩
    · intro entry hentry
      obtain ⟨shape, -, rfl⟩ := List.mem_map.mp hentry
      exact decide_eq_true rfl
  · rw [List.filter_eq_nil_iff.mpr]
    · exact ⟨[], Or.inl List.nil_prefix, .nil⟩
    · intro entry hentry htrue
      obtain ⟨shape, -, rfl⟩ := List.mem_map.mp hentry
      exact hjob (of_decide_eq_true htrue)

/-- The plan for a commit that has stopped after its first entry is exact. -/
theorem planExact_started : PlanExact ([startShape].map Shape.entry) := by
  refine (planExact_iff (journal_of_initial (by simp [successShapes]))).mpr ?_
  rintro job ⟨entry, hentry, -, -, -, hcommitted⟩
  rw [List.mem_singleton.mp hentry] at hcommitted
  cases hcommitted

/-- A complete commit is planned for recovery, and its staging area is to be
cleaned. -/
theorem completed_commit_planned :
    Journal (successShapes.map Shape.entry) ∧
      Sealed (successShapes.map Shape.entry) 1 ∧
      (∃ step ∈ planRecovery (successShapes.map Shape.entry),
        step.1.jobId = 1 ∧ step.2 = .cleanStaging) ∧
      ¬ PlanExact (successShapes.map Shape.entry) := by
  have hjournal := journal_of_initial (List.prefix_refl successShapes)
  have hsealed : Sealed (successShapes.map Shape.entry) 1 :=
    ⟨Shape.entry ⟨.commitStep, "sealed", true⟩, by simp [successShapes], rfl, rfl,
      rfl, rfl⟩
  refine ⟨hjournal, hsealed, ?_, not_planExact_of_sealed hjournal hsealed⟩
  exact exists_mem_planRecovery hjournal
    ⟨startShape.entry, by simp [successShapes], rfl⟩

end Example

end RecoveryPlan

end Badou
end HyperBackup
