import HyperBackup.Agent.Domain

/-!
# The journal of the agent

Entries are appended to a file; reading gives the entries of that file back.
When the file has reached its rotation size it is set aside and an empty file
takes its place, so earlier entries are no longer read.  The length of a record
is a parameter.
-/

namespace HyperBackup
namespace Agent

inductive JournalEntry
  | taskStarted (jobId : JobId) (executionId : ExecutionId)
      (timestamp : UInt64)
  | fileProcessed (jobId : JobId) (filePath : String) (chunks : List ChunkHash)
  | chunkWritten (jobId : JobId) (hash : ChunkHash) (location : ChunkLocation)
  | checkpoint (jobId : JobId) (progress : F64) (pendingFiles : UInt64)
  | taskCompleted (jobId : JobId) (versionId : VersionId) (result : BackupResult)
  | taskFailed (jobId : JobId) (error : BackupError)
deriving DecidableEq

structure Journal where
  entries : List JournalEntry
  currentSize : Nat

namespace Journal

/-- The journal right after its file was created. -/
def empty : Journal where
  entries := []
  currentSize := 0

def rotate (_ : Journal) : Journal :=
  empty

/-- Append a record of the given length. -/
def append (journal : Journal) (rotationSize length : Nat)
    (entry : JournalEntry) : Journal :=
  let size := journal.currentSize + length
  let appended :=
    { entries := journal.entries ++ [entry], currentSize := size }
  if rotationSize ≤ size then rotate appended else appended

section Appends

variable {journal : Journal} {rotationSize length : Nat} {entry : JournalEntry}

theorem append_of_lt (h : journal.currentSize + length < rotationSize) :
    journal.append rotationSize length entry =
      { entries := journal.entries ++ [entry]
        currentSize := journal.currentSize + length } :=
  if_neg (Nat.not_le.mpr h)

theorem append_of_le (h : rotationSize ≤ journal.currentSize + length) :
    journal.append rotationSize length entry = empty :=
  if_pos h

/-- A sequence of appends. -/
def appendAll (rotationSize : Nat) (length : JournalEntry → Nat)
    (journal : Journal) (entries : List JournalEntry) : Journal :=
  entries.foldl
    (fun journal entry => journal.append rotationSize (length entry) entry)
    journal

theorem appendAll_cons (rotationSize : Nat) (length : JournalEntry → Nat)
    (journal : Journal) (entry : JournalEntry) (entries : List JournalEntry) :
    journal.appendAll rotationSize length (entry :: entries) =
      (journal.append rotationSize (length entry) entry).appendAll rotationSize
        length entries :=
  rfl

end Appends

section Survival

variable {rotationSize : Nat} {length : JournalEntry → Nat}
variable {journal : Journal} {entries : List JournalEntry}

/-- Entries that stay below the rotation size are all there. -/
theorem entries_appendAll_of_lt
    (h : journal.currentSize + (entries.map length).sum < rotationSize) :
    (journal.appendAll rotationSize length entries).entries =
      journal.entries ++ entries := by
  induction entries generalizing journal with
  | nil =>
      simp [appendAll]
  | cons entry entries ih =>
      rw [List.map_cons, List.sum_cons] at h
      have hentry : journal.currentSize + length entry < rotationSize := by
        omega
      have hrest : (journal.append rotationSize (length entry) entry).currentSize +
          (entries.map length).sum < rotationSize := by
        rw [append_of_lt hentry]
        simp only
        omega
      have happend := ih hrest
      rw [appendAll_cons, happend, append_of_lt hentry,
        List.append_assoc, List.singleton_append]

/-- What is there was there before or has been appended. -/
theorem entries_appendAll_suffix :
    (journal.appendAll rotationSize length entries).entries <:+
      journal.entries ++ entries := by
  induction entries generalizing journal with
  | nil =>
      simp [appendAll]
  | cons entry entries ih =>
      rw [appendAll_cons]
      refine ih.trans ?_
      by_cases hfull : rotationSize ≤ journal.currentSize + length entry
      · rw [append_of_le hfull]
        exact ⟨journal.entries ++ [entry], by simp [empty]⟩
      · rw [append_of_lt (Nat.lt_of_not_le hfull)]
        simp

/-- Entries that reach the rotation size do not keep the first of them. -/
theorem entries_appendAll_suffix_tail (hne : entries ≠ [])
    (h : rotationSize ≤ journal.currentSize + (entries.map length).sum) :
    (journal.appendAll rotationSize length entries).entries <:+ entries.tail := by
  induction entries generalizing journal with
  | nil =>
      exact absurd rfl hne
  | cons entry entries ih =>
      rw [appendAll_cons, List.tail_cons]
      by_cases hfull : rotationSize ≤ journal.currentSize + length entry
      · rw [append_of_le hfull]
        exact entries_appendAll_suffix
      · have hlt := Nat.lt_of_not_le hfull
        rw [List.map_cons, List.sum_cons] at h
        have hrest : entries ≠ [] := by
          rintro rfl
          simp at h
          omega
        have hsize : rotationSize ≤
            (journal.append rotationSize (length entry) entry).currentSize +
              (entries.map length).sum := by
          rw [append_of_lt hlt]
          simp only
          omega
        exact (ih hrest hsize).trans (List.tail_suffix entries)

/-- An entry that is there is shorter than the rotation size. -/
theorem length_lt_of_mem_appendAll
    (h : ∀ entry ∈ journal.entries, length entry < rotationSize) :
    ∀ entry ∈ (journal.appendAll rotationSize length entries).entries,
      length entry < rotationSize := by
  induction entries generalizing journal with
  | nil =>
      exact h
  | cons entry entries ih =>
      rw [appendAll_cons]
      refine ih ?_
      intro other hother
      by_cases hfull : rotationSize ≤ journal.currentSize + length entry
      · rw [append_of_le hfull] at hother
        cases hother
      · have hlt := Nat.lt_of_not_le hfull
        rw [append_of_lt hlt] at hother
        rcases List.mem_append.mp hother with hmem | hmem
        · exact h other hmem
        · rw [List.mem_singleton.mp hmem]
          omega

end Survival

def readRecent (journal : Journal) (n : Nat) : List JournalEntry :=
  journal.entries.drop (journal.entries.length - n)

end Journal

/-- The path of a processed file of the job. -/
def JournalEntry.processedPath (jobId : JobId) : JournalEntry → Option String
  | .fileProcessed entryJobId filePath _ =>
      if entryJobId = jobId then some filePath else none
  | _ => none

/-- The files that the journal reports as processed; without a journal there
are none. -/
def readProcessedFilesFromJournal (journal : Option Journal) (jobId : JobId) :
    List String :=
  match journal with
  | none => []
  | some journal =>
      (journal.readRecent 10000).filterMap (JournalEntry.processedPath jobId)

end Agent
end HyperBackup
