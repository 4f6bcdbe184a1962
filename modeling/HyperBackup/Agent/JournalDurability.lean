import HyperBackup.Agent.JournalFile

/-!
# What is read back from the journal

Two things can come between an entry and its reader.  A writer may be cut off
in the middle of a record; what it leaves stays in the file, and the next
append goes behind it.  And a file that has reached its rotation size is set
aside, with every entry in it.

The first part follows the file through appends, crashes and re-openings while
it stays below the rotation size.  The second part goes through the abstract
journal: `Represents` connects it with the bytes, and what survives of a
sequence of appends is said there.
-/

namespace HyperBackup
namespace Agent
namespace AppendJournal

open Lib Lib.RecordLog

section Crashes

variable (json : JournalJson)

def step (journal : AppendJournal) : Event JournalEntry → AppendJournal
  | .append entry => journal.append json entry
  | .crash entry kept => journal.crash json entry kept
  | .reopen => journal.openWithRotation

/-- A run on a file that has just been created. -/
def run (rotationSize : Nat) (events : List (Event JournalEntry)) :
    AppendJournal :=
  events.foldl (step json) (create rotationSize)

/-- Every one of these entries is read, in this order. -/
def Durable (journal : AppendJournal) (entries : List JournalEntry) : Prop :=
  ∃ read, journal.readAllEntries json = .ok read ∧ entries.Sublist read

/-- A journal that has never been rotated. -/
def ofFile (rotationSize : Nat) (file : Bytes) : AppendJournal where
  file := file
  rotated := none
  rotationSize := rotationSize
  currentSize := file.length

variable {json} {rotationSize : Nat}

/-- An event adds its bytes, as long as these do not reach the rotation
size. -/
theorem step_ofFile {file : Bytes} {event : Event JournalEntry}
    (h : (file ++ event.bytes (encodeEntry json)).length < rotationSize) :
    step json (ofFile rotationSize file) event =
      ofFile rotationSize (file ++ event.bytes (encodeEntry json)) := by
  cases event with
  | append entry =>
      rw [Event.bytes, List.length_append] at h
      rw [step, append_of_lt json h]
      simp only [ofFile, Event.bytes, List.length_append]
  | crash entry kept =>
      rfl
  | reopen =>
      simp only [step, Event.bytes, List.append_nil]
      rfl

theorem foldl_step_ofFile {file : Bytes} {events : List (Event JournalEntry)}
    (h : (file ++ written (encodeEntry json) events).length < rotationSize) :
    events.foldl (step json) (ofFile rotationSize file) =
      ofFile rotationSize (file ++ written (encodeEntry json) events) := by
  induction events generalizing file with
  | nil =>
      simp [written]
  | cons event events ih =>
      rw [written, List.flatMap_cons, ← written, ← List.append_assoc] at h ⊢
      have hstep : (file ++ event.bytes (encodeEntry json)).length <
          rotationSize := by
        rw [List.length_append] at h
        omega
      rw [List.foldl_cons, step_ofFile hstep, ih h]

/-- Below the rotation size the file holds all bytes of the run. -/
theorem run_eq_ofFile {events : List (Event JournalEntry)}
    (h : (written (encodeEntry json) events).length < rotationSize) :
    run json rotationSize events =
      ofFile rotationSize (written (encodeEntry json) events) := by
  have hfile : (([] : Bytes) ++ written (encodeEntry json) events).length <
      rotationSize := h
  exact foldl_step_ofFile hfile

/-- In every run that stays below the rotation size, and in which no append
succeeds after a writer was cut off in its record, the entries whose append
succeeded are read. -/
theorem run_durable {events : List (Event JournalEntry)}
    (hsize : (written (encodeEntry json) events).length < rotationSize)
    (htear : NoneAppendedAfterTear (encodeEntry json) events)
    (hread : ∀ entry ∈ succeeded events, Readable json entry) :
    Durable json (run json rotationSize events) (succeeded events) := by
  obtain ⟨tail, htail⟩ := exists_written_eq_append htear
  obtain ⟨more, hmore⟩ := exists_readAll_eq_append (frames json) hread
    (readHead_ne_fail json) tail
  refine ⟨succeeded events ++ more, ?_, List.sublist_append_left _ _⟩
  rw [run_eq_ofFile hsize, readAllEntries, ofFile, htail, hmore, List.map_id]

end Crashes

section Example

/-- JSON that knows one value and its text. -/
def onlyJson {α : Type} (value : α) (text : Bytes) : JsonCodec α where
  toVec := fun _ => text
  fromSlice := fun data =>
    if data = text then .ok value else .error "expected value at line 1 column 1"

/-- JSON for a type of which no value is written. -/
def unusedJson (α : Type) : JsonCodec α where
  toVec := fun _ => []
  fromSlice := fun _ => .error "EOF while parsing a value at line 1 column 0"

def exampleExecution : ExecutionId :=
  ⟨0x936da01f9abd4d9d80c702af85c822a8⟩

/-- Half of the work is done. -/
def examplePayload : CheckpointPayload where
  progress := ⟨0x3fe0000000000000⟩
  pendingFiles := 100

/-- JSON for one execution and one checkpoint. -/
def exampleJson : JournalJson where
  taskStarted := onlyJson exampleExecution [
    0x22, 0x39, 0x33, 0x36, 0x64, 0x61, 0x30, 0x31, 0x66, 0x2d, 0x39, 0x61,
    0x62, 0x64, 0x2d, 0x34, 0x64, 0x39, 0x64, 0x2d, 0x38, 0x30, 0x63, 0x37,
    0x2d, 0x30, 0x32, 0x61, 0x66, 0x38, 0x35, 0x63, 0x38, 0x32, 0x32, 0x61,
    0x38, 0x22]
  fileProcessed := unusedJson _
  chunkWritten := unusedJson _
  checkpoint := onlyJson examplePayload [
    0x7b, 0x22, 0x70, 0x72, 0x6f, 0x67, 0x72, 0x65, 0x73, 0x73, 0x22, 0x3a,
    0x30, 0x2e, 0x35, 0x2c, 0x22, 0x70, 0x65, 0x6e, 0x64, 0x69, 0x6e, 0x67,
    0x5f, 0x66, 0x69, 0x6c, 0x65, 0x73, 0x22, 0x3a, 0x31, 0x30, 0x30, 0x7d]
  taskCompleted := unusedJson _
  taskFailed := unusedJson _

/-- A job whose identifier ends in the byte 255. -/
def exampleJob : JobId :=
  ⟨0x6f9619ff8b864d01b42d00cf4fc964ff⟩

def exampleStart : JournalEntry :=
  .taskStarted exampleJob exampleExecution 1234567890

def exampleCheckpoint : JournalEntry :=
  .checkpoint exampleJob examplePayload.progress examplePayload.pendingFiles

theorem readable_exampleStart : Readable exampleJson exampleStart :=
  ⟨by decide, by rfl⟩

theorem readable_exampleCheckpoint : Readable exampleJson exampleCheckpoint :=
  ⟨by decide, by rfl⟩

/-- A crash behind an append does not take the entry away. -/
theorem durable_before_crash :
    Durable exampleJson
      (run exampleJson 1024 [.append exampleStart, .crash exampleStart 5])
      [exampleStart] :=
  run_durable (by decide +kernel) ⟨Or.inr rfl, trivial⟩ (by
    intro entry hentry
    cases List.mem_singleton.mp hentry
    exact readable_exampleStart)

/-- One byte of a record that was cut off hides the append that follows. -/
theorem append_after_tear_not_durable :
    1 < (encodeEntry exampleJson exampleStart).length ∧
      (written (encodeEntry exampleJson)
        [.crash exampleStart 1, .append exampleStart]).length < 1024 ∧
      ¬ Durable exampleJson
        (run exampleJson 1024 [.crash exampleStart 1, .append exampleStart])
        (succeeded [.crash exampleStart 1, .append exampleStart]) := by
  have hread : (run exampleJson 1024
      [.crash exampleStart 1, .append exampleStart]).readAllEntries exampleJson =
        .ok [] := by
    rfl
  refine ⟨by decide +kernel, by decide +kernel, ?_⟩
  rintro ⟨entries, hentries, hsublist⟩
  rw [hread] at hentries
  cases hentries
  cases hsublist

end Example

section Rotation

variable {json : JournalJson} {rotationSize : Nat}

/-- The file holds the records of these entries, and nothing else. -/
structure Represents (json : JournalJson) (rotationSize : Nat)
    (journal : AppendJournal) (entries : Journal) : Prop where
  file : journal.file = entries.entries.flatMap (encodeEntry json)
  currentSize : journal.currentSize = entries.currentSize
  rotationSize : journal.rotationSize = rotationSize

theorem represents_create :
    Represents json rotationSize (create rotationSize) Journal.empty :=
  ⟨rfl, rfl, rfl⟩

/-- An append to the file is an append to the abstract journal. -/
theorem Represents.append {journal : AppendJournal} {entries : Journal}
    (h : Represents json rotationSize journal entries) (entry : JournalEntry) :
    Represents json rotationSize (journal.append json entry)
      (entries.append rotationSize (encodeEntry json entry).length entry) := by
  by_cases hfull : rotationSize ≤
      entries.currentSize + (encodeEntry json entry).length
  · have hjournal : journal.rotationSize ≤
        journal.currentSize + (encodeEntry json entry).length := by
      rw [h.rotationSize, h.currentSize]
      exact hfull
    rw [append_of_le json hjournal, Journal.append_of_le hfull]
    exact ⟨rfl, rfl, h.rotationSize⟩
  · have hjournal : journal.currentSize + (encodeEntry json entry).length <
        journal.rotationSize := by
      rw [h.rotationSize, h.currentSize]
      exact Nat.lt_of_not_le hfull
    rw [append_of_lt json hjournal, Journal.append_of_lt (Nat.lt_of_not_le hfull)]
    refine ⟨?_, ?_, h.rotationSize⟩
    · simp [h.file]
    · simp [h.currentSize]

/-- What is read from a file is what the abstract journal holds, as JSON reads it. -/
theorem Represents.readAllEntries {journal : AppendJournal} {entries : Journal}
    (h : Represents json rotationSize journal entries)
    (hparse : ∀ entry ∈ entries.entries, Parses json entry) :
    journal.readAllEntries json = .ok (entries.entries.map (asRead json)) := by
  have hstop : readHead json [] = .stop := rfl
  have hall := readAll_of_stop (frames_asRead json) hparse hstop
  rw [List.append_nil] at hall
  rw [AppendJournal.readAllEntries, h.file, hall]

/-- A sequence of appends to a file that has just been created. -/
def appends (json : JournalJson) (rotationSize : Nat)
    (entries : List JournalEntry) : AppendJournal :=
  entries.foldl (AppendJournal.append json) (create rotationSize)

/-- The length of the record of an entry. -/
def recordLength (json : JournalJson) (entry : JournalEntry) : Nat :=
  (encodeEntry json entry).length

theorem represents_appends (entries : List JournalEntry) :
    Represents json rotationSize (appends json rotationSize entries)
      (Journal.empty.appendAll rotationSize (recordLength json) entries) := by
  induction entries using List.reverseRecOn with
  | nil =>
      exact represents_create
  | append_singleton entries entry ih =>
      rw [appends, Journal.appendAll, List.foldl_concat, List.foldl_concat]
      exact ih.append entry

/-- The last checkpoint of the job in a list of entries. -/
def lastCheckpoint (jobId : JobId) (entries : List JournalEntry) :
    Option CheckpointPayload :=
  (entries.filterMap (checkpointOf jobId)).getLast?

/-- Reading finds the last checkpoint that was ever appended. -/
def CheckpointSurvives (json : JournalJson) (rotationSize : Nat) (jobId : JobId)
    (entries : List JournalEntry) : Prop :=
  (appends json rotationSize entries).readCheckpoint json jobId =
    .ok (lastCheckpoint jobId entries)

/-- From the last checkpoint of the job on, the records stay below the rotation
size. -/
def NotRotatedAway (json : JournalJson) (rotationSize : Nat) (jobId : JobId)
    (entries : List JournalEntry) : Prop :=
  ∀ before entry after, entries = before ++ entry :: after →
    (checkpointOf jobId entry).isSome →
    (∀ later ∈ after, checkpointOf jobId later = none) →
      (appends json rotationSize before).currentSize +
        ((entry :: after).map (recordLength json)).sum < rotationSize

/-- JSON reads the last checkpoint of the job back as it was written. -/
def LastReadBack (json : JournalJson) (jobId : JobId)
    (entries : List JournalEntry) : Prop :=
  ∀ before entry after, entries = before ++ entry :: after →
    (checkpointOf jobId entry).isSome →
    (∀ later ∈ after, checkpointOf jobId later = none) →
      reread json entry = .ok entry

variable {jobId : JobId} {entries before after : List JournalEntry}
variable {entry : JournalEntry}

theorem lastCheckpoint_eq_none
    (h : ∀ entry ∈ entries, checkpointOf jobId entry = none) :
    lastCheckpoint jobId entries = none := by
  rw [lastCheckpoint, List.getLast?_eq_none_iff, List.filterMap_eq_nil_iff]
  exact h

theorem lastCheckpoint_append_cons
    (h : ∀ later ∈ after, checkpointOf jobId later = none)
    (hentry : (checkpointOf jobId entry).isSome) :
    lastCheckpoint jobId (before ++ entry :: after) = checkpointOf jobId entry := by
  obtain ⟨payload, hpayload⟩ := Option.isSome_iff_exists.mp hentry
  have hafter : after.filterMap (checkpointOf jobId) = [] :=
    List.filterMap_eq_nil_iff.mpr h
  rw [lastCheckpoint, List.filterMap_append, List.filterMap_cons, hpayload, hafter,
    List.getLast?_concat]

/-- A list has no checkpoint of the job, or a last one. -/
theorem exists_last_checkpoint (jobId : JobId) (entries : List JournalEntry) :
    (∀ entry ∈ entries, checkpointOf jobId entry = none) ∨
      ∃ before entry after, entries = before ++ entry :: after ∧
        (checkpointOf jobId entry).isSome ∧
        ∀ later ∈ after, checkpointOf jobId later = none := by
  induction entries with
  | nil =>
      exact Or.inl nofun
  | cons entry entries ih =>
      rcases ih with hnone | ⟨before, last, after, rfl, hlast, hafter⟩
      · cases hentry : checkpointOf jobId entry with
        | none =>
            exact Or.inl (List.forall_mem_cons.mpr ⟨hentry, hnone⟩)
        | some payload =>
            refine Or.inr ⟨[], entry, entries, rfl, ?_, hnone⟩
            rw [hentry]
            rfl
      · exact Or.inr ⟨entry :: before, last, after, rfl, hlast, hafter⟩

/-- A payload leads to one kind of entry of one job, whatever JSON reads in it. -/
theorem exists_of_map_mapError {α : Type} {x : Except String α}
    {make : α → JournalEntry} {read : JournalEntry}
    (h : (x.mapError JournalError.serialize).map make = .ok read) :
    ∃ a, read = make a := by
  cases x with
  | error text =>
      cases h
  | ok a =>
      cases h
      exact ⟨a, rfl⟩

/-- A checkpoint of the job is read as one, and no other entry is. -/
theorem isSome_checkpointOf_reread {read : JournalEntry}
    (h : reread json entry = .ok read) :
    (checkpointOf jobId read).isSome = (checkpointOf jobId entry).isSome := by
  cases entry with
  | taskStarted entryJobId executionId timestamp =>
      obtain ⟨a, rfl⟩ := exists_of_map_mapError h
      rfl
  | fileProcessed entryJobId filePath chunks =>
      obtain ⟨a, rfl⟩ := exists_of_map_mapError h
      rfl
  | chunkWritten entryJobId hash location =>
      obtain ⟨a, rfl⟩ := exists_of_map_mapError h
      rfl
  | checkpoint entryJobId progress pendingFiles =>
      obtain ⟨cp, rfl⟩ := exists_of_map_mapError h
      by_cases hjob : entryJobId = jobId
      · simp [checkpointOf, hjob]
      · simp [checkpointOf, hjob]
  | taskCompleted entryJobId versionId result =>
      obtain ⟨a, rfl⟩ := exists_of_map_mapError h
      rfl
  | taskFailed entryJobId error =>
      obtain ⟨a, rfl⟩ := exists_of_map_mapError h
      rfl

theorem isSome_checkpointOf_asRead (jobId : JobId) (entry : JournalEntry) :
    (checkpointOf jobId (asRead json entry)).isSome =
      (checkpointOf jobId entry).isSome := by
  cases hread : reread json entry with
  | error e =>
      rw [asRead, hread]
      rfl
  | ok read =>
      rw [asRead, hread]
      exact isSome_checkpointOf_reread hread

theorem checkpointOf_asRead_eq_none (h : checkpointOf jobId entry = none) :
    checkpointOf jobId (asRead json entry) = none := by
  rw [← Option.not_isSome_iff_eq_none, isSome_checkpointOf_asRead, h]
  exact Bool.false_ne_true

/-- Entries that are no checkpoints of the job are not read as one. -/
theorem lastCheckpoint_map_asRead_eq_none
    (h : ∀ entry ∈ entries, checkpointOf jobId entry = none) :
    lastCheckpoint jobId (entries.map (asRead json)) = none := by
  refine lastCheckpoint_eq_none fun read hread => ?_
  obtain ⟨entry, hentry, rfl⟩ := List.mem_map.mp hread
  exact checkpointOf_asRead_eq_none (h entry hentry)

/-- The last checkpoint is read in the place of the last one. -/
theorem lastCheckpoint_map_asRead_append_cons
    (h : ∀ later ∈ after, checkpointOf jobId later = none)
    (hentry : (checkpointOf jobId entry).isSome) :
    lastCheckpoint jobId ((before ++ entry :: after).map (asRead json)) =
      checkpointOf jobId (asRead json entry) := by
  rw [List.map_append, List.map_cons]
  refine lastCheckpoint_append_cons (fun read hread => ?_) ?_
  · obtain ⟨later, hlater, rfl⟩ := List.mem_map.mp hread
    exact checkpointOf_asRead_eq_none (h later hlater)
  · rw [isSome_checkpointOf_asRead, hentry]

/-- Job, progress and pending files are all there is to a checkpoint. -/
theorem eq_checkpoint_of_checkpointOf {payload : CheckpointPayload}
    (h : checkpointOf jobId entry = some payload) :
    entry = .checkpoint jobId payload.progress payload.pendingFiles := by
  cases entry with
  | checkpoint entryJobId progress pendingFiles =>
      rw [checkpointOf] at h
      split at h
      next hjob =>
        cases h
        rw [hjob]
      next =>
        cases h
  | _ =>
      cases h

/-- The checkpoint that is read is the last one in the file. -/
theorem readCheckpoint_appends
    (hparse : ∀ entry ∈ entries, recordLength json entry < rotationSize →
      Parses json entry) :
    (appends json rotationSize entries).readCheckpoint json jobId =
      .ok (lastCheckpoint jobId ((Journal.empty.appendAll rotationSize
        (recordLength json) entries).entries.map (asRead json))) := by
  have hsuffix : (Journal.empty.appendAll rotationSize (recordLength json)
      entries).entries <:+ entries := Journal.entries_appendAll_suffix
  have hlength : ∀ entry ∈ (Journal.empty.appendAll rotationSize
      (recordLength json) entries).entries,
      recordLength json entry < rotationSize :=
    Journal.length_lt_of_mem_appendAll nofun
  have hall := (represents_appends entries).readAllEntries fun entry hentry =>
    hparse entry (hsuffix.subset hentry) (hlength entry hentry)
  rw [readCheckpoint, hall, lastCheckpoint, List.getLast?_filterMap]
  rfl

/-- Records that stay below the rotation size are all in the file. -/
theorem entries_appendAll_append
    (h : (appends json rotationSize before).currentSize +
      (after.map (recordLength json)).sum < rotationSize) :
    (Journal.empty.appendAll rotationSize (recordLength json)
      (before ++ after)).entries =
        (Journal.empty.appendAll rotationSize (recordLength json) before).entries ++
          after := by
  rw [(represents_appends before).currentSize] at h
  rw [Journal.appendAll, List.foldl_append]
  exact Journal.entries_appendAll_of_lt h

/-- Records that reach the rotation size take the first of them away. -/
theorem entries_appendAll_suffix_after
    (h : rotationSize ≤ (appends json rotationSize before).currentSize +
      ((entry :: after).map (recordLength json)).sum) :
    (Journal.empty.appendAll rotationSize (recordLength json)
      (before ++ entry :: after)).entries <:+ after := by
  rw [(represents_appends before).currentSize] at h
  rw [Journal.appendAll, List.foldl_append]
  exact Journal.entries_appendAll_suffix_tail (List.cons_ne_nil _ _) h

/-- If the file, as it is read, has the last checkpoint of all appends, then no rotation
took that away. -/
theorem notRotatedAway_of_lastCheckpoint_eq
    (hsame : lastCheckpoint jobId ((Journal.empty.appendAll rotationSize
      (recordLength json) entries).entries.map (asRead json)) =
        lastCheckpoint jobId entries) :
    NotRotatedAway json rotationSize jobId entries := by
  rintro before entry after rfl hentry hafter
  by_contra hfull
  have htail := entries_appendAll_suffix_after (Nat.le_of_not_lt hfull)
  have hnone := @lastCheckpoint_map_asRead_eq_none json jobId _
    fun later hlater => hafter later (htail.subset hlater)
  rw [hnone, lastCheckpoint_append_cons hafter hentry] at hsame
  rw [← hsame] at hentry
  cases hentry

/-- And then JSON reads it back. -/
theorem lastReadBack_of_lastCheckpoint_eq
    (hparse : ∀ entry ∈ entries, recordLength json entry < rotationSize →
      Parses json entry)
    (hkept : NotRotatedAway json rotationSize jobId entries)
    (hsame : lastCheckpoint jobId ((Journal.empty.appendAll rotationSize
      (recordLength json) entries).entries.map (asRead json)) =
        lastCheckpoint jobId entries) :
    LastReadBack json jobId entries := by
  rintro before entry after rfl hentry hafter
  have hlt := hkept before entry after rfl hentry hafter
  have hshort : recordLength json entry < rotationSize := by
    rw [List.map_cons, List.sum_cons] at hlt
    omega
  rw [lastCheckpoint_append_cons hafter hentry, entries_appendAll_append hlt,
    lastCheckpoint_map_asRead_append_cons hafter hentry] at hsame
  obtain ⟨payload, hpayload⟩ := Option.isSome_iff_exists.mp hentry
  rw [(hparse entry (List.mem_append_right _ List.mem_cons_self) hshort).reread_eq,
    eq_checkpoint_of_checkpointOf (hsame.trans hpayload),
    ← eq_checkpoint_of_checkpointOf hpayload]

/-- A last checkpoint that was not rotated away and is read back is found. -/
theorem lastCheckpoint_eq_of_notRotatedAway
    (hkept : NotRotatedAway json rotationSize jobId entries)
    (hback : LastReadBack json jobId entries) :
    lastCheckpoint jobId ((Journal.empty.appendAll rotationSize
      (recordLength json) entries).entries.map (asRead json)) =
        lastCheckpoint jobId entries := by
  rcases exists_last_checkpoint jobId entries with
    hnone | ⟨before, entry, after, rfl, hentry, hafter⟩
  · have hsuffix : (Journal.empty.appendAll rotationSize (recordLength json)
        entries).entries <:+ entries := Journal.entries_appendAll_suffix
    rw [lastCheckpoint_eq_none hnone, lastCheckpoint_map_asRead_eq_none
      fun entry hmem => hnone entry (hsuffix.subset hmem)]
  · have hlt := hkept before entry after rfl hentry hafter
    have hself : asRead json entry = entry := by
      rw [asRead, hback before entry after rfl hentry hafter]
      rfl
    rw [lastCheckpoint_append_cons hafter hentry, entries_appendAll_append hlt,
      lastCheckpoint_map_asRead_append_cons hafter hentry, hself]

/-- A sequence of appends keeps the last checkpoint of a job readable exactly
if from it on the records stay below the rotation size, and JSON reads it back. -/
theorem checkpointSurvives_iff
    (hparse : ∀ entry ∈ entries, recordLength json entry < rotationSize →
      Parses json entry) :
    CheckpointSurvives json rotationSize jobId entries ↔
      NotRotatedAway json rotationSize jobId entries ∧
        LastReadBack json jobId entries := by
  rw [CheckpointSurvives, readCheckpoint_appends hparse]
  constructor
  · intro hsurvives
    have hsame := Except.ok.inj hsurvives
    have hkept := notRotatedAway_of_lastCheckpoint_eq hsame
    exact ⟨hkept, lastReadBack_of_lastCheckpoint_eq hparse hkept hsame⟩
  · rintro ⟨hkept, hback⟩
    rw [lastCheckpoint_eq_of_notRotatedAway hkept hback]

end Rotation

section RotationExample

/-- Of a start and a checkpoint, the checkpoint is the last one. -/
theorem eq_of_start_checkpoint {before after : List JournalEntry} {entry : JournalEntry}
    (h : [exampleStart, exampleCheckpoint] = before ++ entry :: after)
    (hentry : (checkpointOf exampleJob entry).isSome) :
    before = [exampleStart] ∧ entry = exampleCheckpoint ∧ after = [] := by
  cases before with
  | nil =>
      obtain ⟨rfl, -⟩ := List.cons.inj h
      cases hentry
  | cons first before =>
      obtain ⟨rfl, hrest⟩ := List.cons.inj h
      rcases List.append_eq_singleton_iff.mp hrest.symm with ⟨rfl, hlast⟩ | ⟨-, hnil⟩
      · obtain ⟨rfl, rfl⟩ := List.cons.inj hlast
        exact ⟨rfl, rfl, rfl⟩
      · cases hnil

/-- A start and a checkpoint in a file of the usual rotation size. -/
theorem exampleCheckpoint_survives :
    CheckpointSurvives exampleJson (16 * 1024 * 1024) exampleJob
      [exampleStart, exampleCheckpoint] := by
  refine (checkpointSurvives_iff ?_).mpr ⟨?_, ?_⟩
  · intro entry hentry _
    rcases List.mem_pair.mp hentry with rfl | rfl
    · exact readable_exampleStart.parses
    · exact readable_exampleCheckpoint.parses
  · intro before entry after hentries hentry _
    obtain ⟨rfl, rfl, rfl⟩ := eq_of_start_checkpoint hentries hentry
    decide +kernel
  · intro before entry after hentries hentry _
    obtain ⟨rfl, rfl, rfl⟩ := eq_of_start_checkpoint hentries hentry
    exact readable_exampleCheckpoint.2

/-- A checkpoint that reaches the rotation size takes itself away. -/
theorem exampleCheckpoint_rotated_away :
    lastCheckpoint exampleJob [exampleCheckpoint] = some examplePayload ∧
      (appends exampleJson 64 [exampleCheckpoint]).readCheckpoint exampleJson
        exampleJob = .ok none ∧
      ¬ CheckpointSurvives exampleJson 64 exampleJob [exampleCheckpoint] := by
  have hlast : lastCheckpoint exampleJob [exampleCheckpoint] =
      some examplePayload := rfl
  have hread : (appends exampleJson 64 [exampleCheckpoint]).readCheckpoint
      exampleJson exampleJob = .ok none := rfl
  refine ⟨hlast, hread, ?_⟩
  rw [CheckpointSurvives, hread, hlast]
  nofun

end RotationExample

end AppendJournal
end Agent
end HyperBackup
