import HyperBackup.Agent.JournalDurability

/-!
# The format of the journal of the agent

What is read from the records of some entries, and a part of a further record
behind them, is exactly these entries.  All that is asked of JSON is that it
reads back the payloads that were written.
-/

namespace HyperBackup
namespace Agent
namespace AppendJournal

open Lib Lib.RecordLog

section Format

variable (json : JournalJson)

/-- JSON reads the payload of the entry back. -/
def RoundTrips : JournalEntry → Prop
  | .taskStarted _ executionId _ =>
      json.taskStarted.fromSlice (json.taskStarted.toVec executionId) =
        .ok executionId
  | .fileProcessed _ filePath chunks =>
      json.fileProcessed.fromSlice (json.fileProcessed.toVec (filePath, chunks)) =
        .ok (filePath, chunks)
  | .chunkWritten _ hash location =>
      json.chunkWritten.fromSlice (json.chunkWritten.toVec (hash, location)) =
        .ok (hash, location)
  | .checkpoint _ progress pendingFiles =>
      json.checkpoint.fromSlice (json.checkpoint.toVec
        { progress := progress, pendingFiles := pendingFiles }) =
          .ok { progress := progress, pendingFiles := pendingFiles }
  | .taskCompleted _ versionId result =>
      json.taskCompleted.fromSlice (json.taskCompleted.toVec (versionId, result)) =
        .ok (versionId, result)
  | .taskFailed _ error =>
      json.taskFailed.fromSlice (json.taskFailed.toVec error) = .ok error

variable {json}

/-- The type in the header leads back to the kind of the entry. -/
theorem readable_of_roundTrips {entry : JournalEntry}
    (hlength : (payloadOf json entry).length < 2 ^ 32)
    (hjson : RoundTrips json entry) : Readable json entry := by
  refine ⟨hlength, ?_⟩
  cases entry with
  | taskStarted jobId executionId timestamp =>
      have hread : json.taskStarted.fromSlice
          (json.taskStarted.toVec executionId) = .ok executionId := hjson
      simp only [decodePayload, hread]
      rfl
  | fileProcessed jobId filePath chunks =>
      have hread : json.fileProcessed.fromSlice
          (json.fileProcessed.toVec (filePath, chunks)) = .ok (filePath, chunks) :=
        hjson
      simp only [decodePayload, hread]
      rfl
  | chunkWritten jobId hash location =>
      have hread : json.chunkWritten.fromSlice
          (json.chunkWritten.toVec (hash, location)) = .ok (hash, location) := hjson
      simp only [decodePayload, hread]
      rfl
  | checkpoint jobId progress pendingFiles =>
      have hread : json.checkpoint.fromSlice (json.checkpoint.toVec
          { progress := progress, pendingFiles := pendingFiles }) =
            .ok { progress := progress, pendingFiles := pendingFiles } := hjson
      simp only [decodePayload, hread]
      rfl
  | taskCompleted jobId versionId result =>
      have hread : json.taskCompleted.fromSlice
          (json.taskCompleted.toVec (versionId, result)) = .ok (versionId, result) :=
        hjson
      simp only [decodePayload, hread]
      rfl
  | taskFailed jobId error =>
      have hread : json.taskFailed.fromSlice (json.taskFailed.toVec error) =
          .ok error := hjson
      simp only [decodePayload, hread]
      rfl

/-- Exactly the entries whose records are complete are read, and every record
is decoded as its entry. -/
theorem readAllEntries_of_torn {entries : List JournalEntry} {last : JournalEntry}
    {k : Nat} {journal : AppendJournal}
    (hgood : ∀ entry ∈ last :: entries,
      (payloadOf json entry).length < 2 ^ 32 ∧ RoundTrips json entry)
    (hk : k < (encodeEntry json last).length)
    (hfile : journal.file =
      entries.flatMap (encodeEntry json) ++ (encodeEntry json last).take k) :
    journal.readAllEntries json = .ok entries ∧
      ∀ entry, (payloadOf json entry).length < 2 ^ 32 → RoundTrips json entry →
        decodeEntry json (encodeEntry json entry) = .ok entry := by
  have hreadable : ∀ entry ∈ last :: entries, Readable json entry := by
    intro entry hentry
    exact readable_of_roundTrips (hgood entry hentry).1 (hgood entry hentry).2
  have htorn := (frames json).torn last (hreadable last List.mem_cons_self) k hk
  constructor
  · rw [readAllEntries, hfile, readAll_of_stop (frames json)
      (fun entry hentry => hreadable entry (List.mem_cons_of_mem _ hentry)) htorn,
      List.map_id]
  · intro entry hlength hjson
    exact (decodeEntry_encodeEntry hlength).trans
      (readable_of_roundTrips hlength hjson).2

/-- A start, and the first 40 bytes of a checkpoint behind it. -/
theorem readAllEntries_start :
    ({ create 1024 with
        file := encodeEntry exampleJson exampleStart ++
          (encodeEntry exampleJson exampleCheckpoint).take 40 } :
      AppendJournal).readAllEntries exampleJson = .ok [exampleStart] := by
  refine (@readAllEntries_of_torn exampleJson [exampleStart] exampleCheckpoint 40 _
    ?_ (by decide +kernel) ?_).1
  · intro entry hentry
    rcases List.mem_pair.mp hentry with rfl | rfl
    · exact ⟨by decide, rfl⟩
    · exact ⟨by decide, rfl⟩
  · rw [List.flatMap_singleton]

end Format

end AppendJournal
end Agent
end HyperBackup
