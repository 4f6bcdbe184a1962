import HyperBackup.Agent.Journal
import HyperBackup.Lib.Crc32
import HyperBackup.Lib.RecordLog

/-!
# The journal of the agent on disk

An entry becomes a record: a header with its type, its time, its job and the
length of the payload, the payload as JSON, and a checksum over both.  The
reader goes from record to record and stops at the first one that is not
complete or does not decode.

`Represents` connects the bytes with the abstract journal: the entries of the
current file, in order, and its size.  JSON is a parameter with the two
directions for every type of payload.
-/

namespace HyperBackup
namespace Agent

open Lib Lib.RecordLog

inductive JournalError
  | corrupted
  | serialize (text : String)
deriving DecidableEq

/-- JSON for one type. -/
structure JsonCodec (α : Type) where
  toVec : α → Bytes
  fromSlice : Bytes → Except String α

structure CheckpointPayload where
  progress : F64
  pendingFiles : UInt64
deriving DecidableEq

/-- JSON for the payloads of the journal. -/
structure JournalJson where
  taskStarted : JsonCodec ExecutionId
  fileProcessed : JsonCodec (String × List ChunkHash)
  chunkWritten : JsonCodec (ChunkHash × ChunkLocation)
  checkpoint : JsonCodec CheckpointPayload
  taskCompleted : JsonCodec (VersionId × BackupResult)
  taskFailed : JsonCodec BackupError

/-- The journal file, the file that was last set aside and the size counter. -/
structure AppendJournal where
  file : Bytes
  rotated : Option Bytes
  rotationSize : Nat
  currentSize : Nat
deriving DecidableEq

namespace AppendJournal

def recordFooterSize : Nat :=
  4

section Operations

variable (json : JournalJson)

/-- The type, the job, the time and the payload of an entry. -/
def parts : JournalEntry → UInt8 × JobId × UInt64 × Bytes
  | .taskStarted jobId executionId timestamp =>
      (1, jobId, timestamp, json.taskStarted.toVec executionId)
  | .fileProcessed jobId filePath chunks =>
      (2, jobId, 0, json.fileProcessed.toVec (filePath, chunks))
  | .chunkWritten jobId hash location =>
      (3, jobId, 0, json.chunkWritten.toVec (hash, location))
  | .checkpoint jobId progress pendingFiles =>
      (4, jobId, 0, json.checkpoint.toVec
        { progress := progress, pendingFiles := pendingFiles })
  | .taskCompleted jobId versionId result =>
      (5, jobId, 0, json.taskCompleted.toVec (versionId, result))
  | .taskFailed jobId error =>
      (6, jobId, 0, json.taskFailed.toVec error)

/-- Header and payload.  The length is cut to 32 bits. -/
def recordBody (entryType : UInt8) (jobId : JobId) (timestamp : UInt64)
    (payload : Bytes) : Bytes :=
  Header.encode
    { tag := entryType
      stamp := timestamp
      id := jobId.uuid
      length := UInt32.ofNat payload.length } ++ payload

def encodeEntry (entry : JournalEntry) : Bytes :=
  let (entryType, jobId, timestamp, payload) := parts json entry
  let record := recordBody entryType jobId timestamp payload
  record ++ LittleEndian.encode 4 (Crc32.crc32 record).toNat

/-- The entry of a payload, by its type. -/
def decodePayload (entryType : UInt8) (jobId : JobId) (timestamp : UInt64)
    (payload : Bytes) : Except JournalError JournalEntry :=
  match entryType.toNat with
  | 1 =>
      ((json.taskStarted.fromSlice payload).mapError .serialize).map
        fun executionId => .taskStarted jobId executionId timestamp
  | 2 =>
      ((json.fileProcessed.fromSlice payload).mapError .serialize).map
        fun (filePath, chunks) => .fileProcessed jobId filePath chunks
  | 3 =>
      ((json.chunkWritten.fromSlice payload).mapError .serialize).map
        fun (hash, location) => .chunkWritten jobId hash location
  | 4 =>
      ((json.checkpoint.fromSlice payload).mapError .serialize).map
        fun cp => .checkpoint jobId cp.progress cp.pendingFiles
  | 5 =>
      ((json.taskCompleted.fromSlice payload).mapError .serialize).map
        fun (versionId, result) => .taskCompleted jobId versionId result
  | 6 =>
      ((json.taskFailed.fromSlice payload).mapError .serialize).map
        fun error => .taskFailed jobId error
  | _ => .error .corrupted

def decodeEntry (data : Bytes) : Except JournalError JournalEntry :=
  if data.length < Header.size + recordFooterSize then .error .corrupted
  else
    let header := Header.decode data
    let payloadLen := header.length.toNat
    if data.length < Header.size + payloadLen + recordFooterSize then
      .error .corrupted
    else
      let record := data.take (Header.size + payloadLen)
      let storedCrc := LittleEndian.decode
        ((data.drop (Header.size + payloadLen)).take recordFooterSize)
      if storedCrc ≠ (Crc32.crc32 record).toNat then .error .corrupted
      else
        decodePayload json header.tag ⟨header.id⟩ header.stamp
          (record.drop Header.size)

/-- What the reader finds in the rest of the file. -/
def readHead (data : Bytes) : Head JournalError JournalEntry :=
  if data.length < Header.size + recordFooterSize then .stop
  else
    let recordLen := Header.size + (Header.decode data).length.toNat +
      recordFooterSize
    if data.length < recordLen then .stop
    else
      match decodeEntry json (data.take recordLen) with
      | .ok entry => .record entry recordLen
      | .error _ => .stop

def readAllEntries (journal : AppendJournal) :
    Except JournalError (List JournalEntry) :=
  readAll (readHead json) journal.file

/-- Open the file again; its length is the new size. -/
def openWithRotation (journal : AppendJournal) : AppendJournal :=
  { journal with currentSize := journal.file.length }

/-- A journal whose file has just been created. -/
def create (rotationSize : Nat) : AppendJournal where
  file := []
  rotated := none
  rotationSize := rotationSize
  currentSize := 0

/-- Set the file aside, over the one set aside before. -/
def rotate (journal : AppendJournal) : AppendJournal :=
  { journal with
    file := []
    rotated := some journal.file
    currentSize := 0 }

def append (journal : AppendJournal) (entry : JournalEntry) : AppendJournal :=
  let record := encodeEntry json entry
  let written :=
    { journal with
      file := journal.file ++ record
      currentSize := journal.currentSize + record.length }
  if written.rotationSize ≤ written.currentSize then written.rotate else written

/-- An append that is cut off when some bytes of the record are in the file,
and the opening of the file after that. -/
def crash (journal : AppendJournal) (entry : JournalEntry) (kept : Nat) :
    AppendJournal :=
  openWithRotation
    { journal with file := journal.file ++ (encodeEntry json entry).take kept }

/-- The checkpoint an entry holds for the job. -/
def checkpointOf (jobId : JobId) : JournalEntry → Option CheckpointPayload
  | .checkpoint entryJobId progress pendingFiles =>
      if entryJobId = jobId then
        some { progress := progress, pendingFiles := pendingFiles }
      else none
  | _ => none

/-- The last checkpoint of the job, without the time of reading. -/
def readCheckpoint (journal : AppendJournal) (jobId : JobId) :
    Except JournalError (Option CheckpointPayload) :=
  (journal.readAllEntries json).map fun entries =>
    entries.reverse.findSome? (checkpointOf jobId)

end Operations

section Records

variable (json : JournalJson)

/-- An entry that can be read back: its payload has a 32-bit length, and JSON
reads it as the entry that was written. -/
def Readable (entry : JournalEntry) : Prop :=
  let (entryType, jobId, timestamp, payload) := parts json entry
  payload.length < 2 ^ 32 ∧
    decodePayload json entryType jobId timestamp payload = .ok entry

/-- What the reader makes of the payload of an entry. -/
def reread (entry : JournalEntry) : Except JournalError JournalEntry :=
  let (entryType, jobId, timestamp, payload) := parts json entry
  decodePayload json entryType jobId timestamp payload

/-- The header of a record. -/
def headerOf (entry : JournalEntry) : Header where
  tag := (parts json entry).1
  stamp := (parts json entry).2.2.1
  id := (parts json entry).2.1.uuid
  length := UInt32.ofNat (parts json entry).2.2.2.length

def payloadOf (entry : JournalEntry) : Bytes :=
  (parts json entry).2.2.2

/-- A record is a header, a payload and the checksum of both. -/
theorem encodeEntry_eq_append (entry : JournalEntry) :
    encodeEntry json entry =
      (headerOf json entry).encode ++ payloadOf json entry ++
        LittleEndian.encode 4 (Crc32.crc32
          ((headerOf json entry).encode ++ payloadOf json entry)).toNat :=
  rfl

@[simp] theorem length_encodeEntry (entry : JournalEntry) :
    (encodeEntry json entry).length =
      Header.size + (payloadOf json entry).length + recordFooterSize := by
  simp [encodeEntry_eq_append, recordFooterSize, Nat.add_assoc]

/-- The header of a record, read from data that begins with it. -/
@[simp] theorem decode_encodeEntry_append (entry : JournalEntry) (rest : Bytes) :
    Header.decode (encodeEntry json entry ++ rest) = headerOf json entry := by
  rw [encodeEntry_eq_append, List.append_assoc, List.append_assoc,
    Header.decode_encode_append]

variable {json}

theorem toNat_length_headerOf {entry : JournalEntry}
    (h : (payloadOf json entry).length < 2 ^ 32) :
    (headerOf json entry).length.toNat = (payloadOf json entry).length :=
  UInt32.toNat_ofNat_of_lt' h

/-- Of a complete record, the payload is decoded. -/
theorem decodeEntry_encodeEntry {entry : JournalEntry}
    (h : (payloadOf json entry).length < 2 ^ 32) :
    decodeEntry json (encodeEntry json entry) = reread json entry := by
  have hheader := decode_encodeEntry_append json entry []
  rw [List.append_nil] at hheader
  have hrecord : (encodeEntry json entry).take
      (Header.size + (payloadOf json entry).length) =
      (headerOf json entry).encode ++ payloadOf json entry := by
    rw [encodeEntry_eq_append, List.take_left' (by simp)]
  have hcrc : ((encodeEntry json entry).drop
      (Header.size + (payloadOf json entry).length)).take recordFooterSize =
      LittleEndian.encode 4 (Crc32.crc32
        ((headerOf json entry).encode ++ payloadOf json entry)).toNat := by
    rw [encodeEntry_eq_append, List.drop_left' (by simp),
      List.take_of_length_le (by simp [recordFooterSize])]
  have hpayload : ((headerOf json entry).encode ++ payloadOf json entry).drop
      Header.size = payloadOf json entry :=
    List.drop_left' (by simp)
  simp only [decodeEntry, hheader, toNat_length_headerOf h, length_encodeEntry,
    hrecord, hcrc, hpayload, LittleEndian.decode_encode_uint32]
  rw [if_neg (by omega), if_neg (by omega), if_neg (by simp)]
  rfl

variable (json)

/-- An entry whose record is decoded, if perhaps as another one: its payload has
a 32-bit length, and JSON reads something in it. -/
def Parses (entry : JournalEntry) : Prop :=
  (payloadOf json entry).length < 2 ^ 32 ∧ ∃ read, reread json entry = .ok read

/-- The entry that is read in the place of this one. -/
def asRead (entry : JournalEntry) : JournalEntry :=
  (reread json entry).toOption.getD entry

variable {json}

theorem Parses.reread_eq {entry : JournalEntry} (h : Parses json entry) :
    reread json entry = .ok (asRead json entry) := by
  obtain ⟨read, hread⟩ := h.2
  rw [asRead, hread]
  rfl

theorem Readable.parses {entry : JournalEntry} (h : Readable json entry) :
    Parses json entry :=
  ⟨h.1, entry, h.2⟩

/-- What is read back is the entry itself. -/
theorem Readable.asRead_eq {entry : JournalEntry} (h : Readable json entry) :
    asRead json entry = entry :=
  Except.ok.inj (h.parses.reread_eq.symm.trans h.2)

variable (json)

/-- The reader finds complete records and stops at a part of one. -/
theorem frames_asRead :
    Frames (readHead json) (encodeEntry json) (asRead json) (Parses json) where
  nonempty := by
    intro entry
    rw [length_encodeEntry, recordFooterSize]
    omega
  record := by
    intro entry h rest
    have hlen := length_encodeEntry json entry
    simp only [readHead, decode_encodeEntry_append, toNat_length_headerOf h.1, ← hlen,
      List.length_append, List.take_left, decodeEntry_encodeEntry h.1, h.reread_eq]
    rw [if_neg (by omega), if_neg (by omega)]
  torn := by
    intro entry h k hk
    have hlen := length_encodeEntry json entry
    have htake : ((encodeEntry json entry).take k).length = k := by
      rw [List.length_take]
      omega
    rw [readHead, htake]
    by_cases hshort : k < Header.size + recordFooterSize
    · rw [if_pos hshort]
    · have hheader : Header.decode ((encodeEntry json entry).take k) =
          headerOf json entry := by
        rw [Header.decode_take (by omega)]
        simpa using decode_encodeEntry_append json entry []
      simp only [if_neg hshort, hheader, toNat_length_headerOf h.1, ← hlen, if_pos hk]

/-- Where JSON reads back what was written, it finds the entries. -/
theorem frames :
    Frames (readHead json) (encodeEntry json) id (Readable json) where
  nonempty := (frames_asRead json).nonempty
  record := by
    intro entry h rest
    rw [(frames_asRead json).record entry h.parses, h.asRead_eq]
    rfl
  torn := by
    intro entry h
    exact (frames_asRead json).torn entry h.parses

/-- An append below the rotation size. -/
theorem append_of_lt {journal : AppendJournal} {entry : JournalEntry}
    (h : journal.currentSize + (encodeEntry json entry).length <
      journal.rotationSize) :
    journal.append json entry =
      { journal with
        file := journal.file ++ encodeEntry json entry
        currentSize := journal.currentSize + (encodeEntry json entry).length } :=
  if_neg (Nat.not_le.mpr h)

/-- An append that reaches the rotation size leaves an empty file. -/
theorem append_of_le {journal : AppendJournal} {entry : JournalEntry}
    (h : journal.rotationSize ≤
      journal.currentSize + (encodeEntry json entry).length) :
    journal.append json entry =
      { journal with
        file := []
        rotated := some (journal.file ++ encodeEntry json entry)
        currentSize := 0 } :=
  if_pos h

/-- The reader of the agent never fails. -/
theorem readHead_ne_fail (data : Bytes) (e : JournalError) :
    readHead json data ≠ .fail e := by
  rw [readHead]
  split
  · nofun
  · simp only
    split
    · nofun
    · split
      · nofun
      · nofun

end Records

end AppendJournal

end Agent
end HyperBackup
