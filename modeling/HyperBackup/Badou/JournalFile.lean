import HyperBackup.Badou.Commit
import HyperBackup.Lib.Crc32
import HyperBackup.Lib.RecordLog

/-!
# The journal of BaDou on disk

A record is a header with the type of the operation, the time in milliseconds,
the job and the length of the payload, then the payload, one byte for the
committed flag and a checksum over all of it.  The reader stops at a record
that is not complete or has the wrong checksum, and fails at a type it does not
know.

The reader reads back what a run has appended if nothing is written after a
writer was cut off in the middle of its record.  Otherwise the next record is
read from the wrong position.
-/

namespace HyperBackup
namespace Badou

open Lib Lib.RecordLog

namespace JournalOpType

def asU8 : JournalOpType → UInt8
  | commitStep => 1
  | gcStep => 2
  | verifyStep => 3
  | stateTransition => 4
  | recovery => 5

def fromU8 (v : UInt8) : Option JournalOpType :=
  match v.toNat with
  | 1 => some commitStep
  | 2 => some gcStep
  | 3 => some verifyStep
  | 4 => some stateTransition
  | 5 => some recovery
  | _ => none

@[simp] theorem fromU8_asU8 (opType : JournalOpType) :
    fromU8 opType.asU8 = some opType := by
  cases opType with
  | _ => rfl

end JournalOpType

namespace DateTimeMillis

/-- The first and the last second of the calendar. -/
def minSeconds : Int :=
  -8334601228800

def maxSeconds : Int :=
  8210266876799

/-- Whole milliseconds since 1970, rounded down. -/
def timestampMillis (t : DateTime) : Int :=
  t / 1000000

/-- The point in time, if it is in the calendar. -/
def fromTimestampMillis (millis : Int) : Option DateTime :=
  if minSeconds * 1000 ≤ millis ∧ millis ≤ maxSeconds * 1000 + 999 then
    some (millis * 1000000)
  else none

/-- A point in time of the calendar. -/
def InCalendar (t : DateTime) : Prop :=
  minSeconds * 1000000000 ≤ t ∧ maxSeconds * 1000000000 + 999999999 ≥ t

theorem fromTimestampMillis_timestampMillis {t : DateTime} (h : InCalendar t) :
    fromTimestampMillis (timestampMillis t) =
      some (timestampMillis t * 1000000) := by
  obtain ⟨hmin, hmax⟩ := h
  simp only [minSeconds, maxSeconds] at hmin hmax
  refine if_pos ⟨?_, ?_⟩
  · simp only [minSeconds, timestampMillis]
    omega
  · simp only [maxSeconds, timestampMillis]
    omega

/-- Every point in time of the calendar has 64 bits of milliseconds. -/
theorem toInt_ofInt_timestampMillis {t : DateTime} (h : InCalendar t) :
    (Int64.ofInt (timestampMillis t)).toInt = timestampMillis t := by
  obtain ⟨hmin, hmax⟩ := h
  simp only [minSeconds, maxSeconds] at hmin hmax
  refine Int64.toInt_ofInt_of_le ?_ ?_
  · simp only [timestampMillis]
    omega
  · simp only [timestampMillis]
    omega

end DateTimeMillis

open DateTimeMillis

inductive JournalError
  | crc32Mismatch (expected actual : UInt32)
  | invalidType (v : UInt8)
  | truncated
deriving DecidableEq

/-- The journal file and the size counter.  The files set aside by rotations
are never read. -/
structure BadouJournal where
  file : Bytes
  rotationSize : Nat
  currentSize : Nat
deriving DecidableEq

namespace BadouJournal

section Operations

/-- Header, payload and flag.  The length is cut to 32 bits. -/
def recordBody (entry : BadouJournalEntry) : Bytes :=
  Header.encode
    { tag := entry.opType.asU8
      stamp := (Int64.ofInt (timestampMillis entry.timestamp)).toUInt64
      id := entry.jobId
      length := UInt32.ofNat entry.payload.length } ++
    entry.payload ++ [if entry.committed then 1 else 0]

def encodeEntry (entry : BadouJournalEntry) : Bytes :=
  recordBody entry ++
    LittleEndian.encode 4 (Crc32.crc32 (recordBody entry)).toNat

variable (now : Bytes → DateTime)

/-- Decode the record at the beginning of the data, with its length; there is
none where not even a header is left.  A time outside the calendar is read as
the time of reading. -/
def decodeEntry (data : Bytes) :
    Except JournalError (Option (BadouJournalEntry × Nat)) :=
  if data.length < Header.size then .ok none
  else
    let header := Header.decode data
    match JournalOpType.fromU8 header.tag with
    | none => .error (.invalidType header.tag)
    | some opType =>
        let payloadLen := header.length.toNat
        let recordLen := Header.size + payloadLen + 1
        if data.length < recordLen + 4 then .error .truncated
        else
          let storedCrc := UInt32.ofNat
            (LittleEndian.decode ((data.drop recordLen).take 4))
          let computedCrc := Crc32.crc32 (data.take recordLen)
          if storedCrc ≠ computedCrc then
            .error (.crc32Mismatch storedCrc computedCrc)
          else
            .ok (some
              ({ opType := opType
                 timestamp := (fromTimestampMillis
                   header.stamp.toInt64.toInt).getD (now data)
                 jobId := header.id
                 payload := (data.drop Header.size).take payloadLen
                 committed := (data.drop (Header.size + payloadLen)).head? =
                   some 1 }, recordLen + 4))

/-- What the reader does with a record. -/
def readHead (data : Bytes) : Head JournalError BadouJournalEntry :=
  match decodeEntry now data with
  | .ok (some (entry, length)) => .record entry length
  | .ok none => .stop
  | .error (.crc32Mismatch _ _) => .stop
  | .error .truncated => .stop
  | .error e => .fail e

def readFrom (journal : BadouJournal) (offset : Nat) :
    Except JournalError (List BadouJournalEntry) :=
  RecordLog.readAll (readHead now) (journal.file.drop offset)

def readAll (journal : BadouJournal) :
    Except JournalError (List BadouJournalEntry) :=
  journal.readFrom now 0

/-- Open the file again; its length is the new size. -/
def openWithRotation (journal : BadouJournal) : BadouJournal :=
  { journal with currentSize := journal.file.length }

/-- A journal whose file has just been created. -/
def create (rotationSize : Nat) : BadouJournal where
  file := []
  rotationSize := rotationSize
  currentSize := 0

def rotateLocked (journal : BadouJournal) : BadouJournal :=
  { journal with file := [], currentSize := 0 }

/-- Make room for a record. -/
def rotateFor (journal : BadouJournal) (length : Nat) : BadouJournal :=
  if journal.currentSize + length > journal.rotationSize then
    journal.rotateLocked
  else journal

/-- Append a record; the result is its offset. -/
def append (journal : BadouJournal) (entry : BadouJournalEntry) :
    Nat × BadouJournal :=
  let encoded := encodeEntry entry
  let journal := journal.rotateFor encoded.length
  (journal.currentSize,
    { journal with
      file := journal.file ++ encoded
      currentSize := journal.currentSize + encoded.length })

/-- An append that is cut off when some bytes of the record are in the file,
and the opening of the file after that. -/
def crash (journal : BadouJournal) (entry : BadouJournalEntry) (kept : Nat) :
    BadouJournal :=
  let encoded := encodeEntry entry
  let journal := journal.rotateFor encoded.length
  openWithRotation { journal with file := journal.file ++ encoded.take kept }

end Operations

section Records

/-- An entry that can be read back: its payload has a 32-bit length, and its
time is in the calendar. -/
structure Readable (entry : BadouJournalEntry) : Prop where
  payload : entry.payload.length < 2 ^ 32
  timestamp : InCalendar entry.timestamp

/-- The entry as it is recorded, with its time in whole milliseconds. -/
def recorded (entry : BadouJournalEntry) : BadouJournalEntry :=
  { entry with timestamp := timestampMillis entry.timestamp * 1000000 }

/-- The header of a record. -/
def headerOf (entry : BadouJournalEntry) : Header where
  tag := entry.opType.asU8
  stamp := (Int64.ofInt (timestampMillis entry.timestamp)).toUInt64
  id := entry.jobId
  length := UInt32.ofNat entry.payload.length

theorem recordBody_eq_append (entry : BadouJournalEntry) :
    recordBody entry = (headerOf entry).encode ++
      (entry.payload ++ [if entry.committed then 1 else 0]) := by
  rw [recordBody, List.append_assoc]
  rfl

@[simp] theorem length_recordBody (entry : BadouJournalEntry) :
    (recordBody entry).length = Header.size + entry.payload.length + 1 := by
  simp [recordBody, Nat.add_assoc]

@[simp] theorem length_encodeEntry (entry : BadouJournalEntry) :
    (encodeEntry entry).length =
      Header.size + entry.payload.length + 1 + 4 := by
  simp [encodeEntry]

/-- The header of a record, read from data that begins with it. -/
@[simp] theorem decode_encodeEntry_append (entry : BadouJournalEntry)
    (rest : Bytes) :
    Header.decode (encodeEntry entry ++ rest) = headerOf entry := by
  rw [encodeEntry, recordBody_eq_append, List.append_assoc, List.append_assoc,
    Header.decode_encode_append]

variable {now : Bytes → DateTime} {entry : BadouJournalEntry}

theorem Readable.toNat_length (h : Readable entry) :
    (headerOf entry).length.toNat = entry.payload.length :=
  UInt32.toNat_ofNat_of_lt' h.payload

/-- The time of a record, read back. -/
theorem Readable.fromTimestampMillis_stamp (h : Readable entry) :
    fromTimestampMillis (headerOf entry).stamp.toInt64.toInt =
      some (recorded entry).timestamp := by
  rw [headerOf, Int64.toInt64_toUInt64, toInt_ofInt_timestampMillis h.timestamp,
    fromTimestampMillis_timestampMillis h.timestamp]
  rfl

/-- A complete record is decoded, whatever follows it. -/
theorem decodeEntry_encodeEntry_append (h : Readable entry) (rest : Bytes) :
    decodeEntry now (encodeEntry entry ++ rest) =
      .ok (some (recorded entry, (encodeEntry entry).length)) := by
  have hbytes : encodeEntry entry ++ rest = recordBody entry ++
      (LittleEndian.encode 4 (Crc32.crc32 (recordBody entry)).toNat ++ rest) := by
    rw [encodeEntry, List.append_assoc]
  have hfront : encodeEntry entry ++ rest =
      (headerOf entry).encode ++ (entry.payload ++
        ([if entry.committed then 1 else 0] ++
          (LittleEndian.encode 4 (Crc32.crc32 (recordBody entry)).toNat ++
            rest))) := by
    rw [hbytes, recordBody_eq_append, List.append_assoc, List.append_assoc]
  have hrecord : (encodeEntry entry ++ rest).take
      (Header.size + entry.payload.length + 1) = recordBody entry := by
    rw [hbytes, List.take_left' (by simp)]
  have hcrc : ((encodeEntry entry ++ rest).drop
      (Header.size + entry.payload.length + 1)).take 4 =
        LittleEndian.encode 4 (Crc32.crc32 (recordBody entry)).toNat := by
    rw [hbytes, List.drop_left' (by simp), List.take_left' (by simp)]
  have hpayload : ((encodeEntry entry ++ rest).drop Header.size).take
      entry.payload.length = entry.payload := by
    rw [hfront, List.drop_left' (by simp), List.take_left' rfl]
  have hflag : ((encodeEntry entry ++ rest).drop
      (Header.size + entry.payload.length)).head? =
        some (if entry.committed then 1 else 0) := by
    rw [hfront, ← List.append_assoc, List.drop_left' (by simp)]
    rfl
  have hlen := length_encodeEntry entry
  have hop : JournalOpType.fromU8 (headerOf entry).tag = some entry.opType :=
    JournalOpType.fromU8_asU8 entry.opType
  have hcommitted : decide ((some (if entry.committed then 1 else 0) :
      Option UInt8) = some 1) = entry.committed := by
    cases entry.committed with
    | _ => rfl
  rw [decodeEntry, if_neg (by rw [List.length_append]; omega)]
  simp only [decode_encodeEntry_append, hop, h.toNat_length, hrecord, hcrc,
    hpayload, hflag, LittleEndian.decode_encode_uint32, UInt32.ofNat_toNat,
    h.fromTimestampMillis_stamp, Option.getD_some, hcommitted]
  rw [if_neg (by rw [List.length_append]; omega), if_neg (not_not.mpr rfl), hlen]
  rfl

/-- A part of a record is not decoded. -/
theorem decodeEntry_take_encodeEntry (h : Readable entry) {k : Nat}
    (hk : k < (encodeEntry entry).length) :
    decodeEntry now ((encodeEntry entry).take k) = .ok none ∨
      decodeEntry now ((encodeEntry entry).take k) = .error .truncated := by
  have hlen := length_encodeEntry entry
  have htake : ((encodeEntry entry).take k).length = k := by
    rw [List.length_take]
    omega
  by_cases hshort : k < Header.size
  · left
    rw [decodeEntry, htake, if_pos hshort]
  · right
    have hheader : Header.decode ((encodeEntry entry).take k) =
        headerOf entry := by
      rw [Header.decode_take (by omega)]
      simpa using decode_encodeEntry_append entry []
    have hop : JournalOpType.fromU8 (headerOf entry).tag = some entry.opType :=
      JournalOpType.fromU8_asU8 entry.opType
    rw [decodeEntry, htake, if_neg hshort]
    simp only [hheader, hop, h.toNat_length]
    rw [if_pos (by omega)]

/-- The reader finds complete records and stops at a part of one. -/
theorem frames (now : Bytes → DateTime) :
    Frames (readHead now) encodeEntry recorded Readable where
  nonempty := by
    intro entry
    rw [length_encodeEntry]
    omega
  record := by
    intro entry h rest
    rw [readHead, decodeEntry_encodeEntry_append h]
  torn := by
    intro entry h k hk
    rw [readHead]
    rcases decodeEntry_take_encodeEntry h hk with hnone | htruncated
    · rw [hnone]
    · rw [htruncated]

end Records

section Runs

def step (journal : BadouJournal) : Event BadouJournalEntry → BadouJournal
  | .append entry => (journal.append entry).2
  | .crash entry kept => journal.crash entry kept
  | .reopen => journal.openWithRotation

/-- A run on a file that has just been created. -/
def run (rotationSize : Nat) (events : List (Event BadouJournalEntry)) :
    BadouJournal :=
  events.foldl step (create rotationSize)

/-- The length of the record that an event is about to write. -/
def recordLength : Event BadouJournalEntry → Nat
  | .append entry => (encodeEntry entry).length
  | .crash entry _ => (encodeEntry entry).length
  | .reopen => 0

/-- No record, also none that is cut off, goes beyond the rotation size. -/
def NeverRotates (rotationSize : Nat)
    (events : List (Event BadouJournalEntry)) : Prop :=
  ∀ before event after, events = before ++ event :: after →
    (written encodeEntry before).length + recordLength event ≤ rotationSize

/-- The entry whose record an event writes or begins to write. -/
def entryOf : Event BadouJournalEntry → Option BadouJournalEntry
  | .append entry => some entry
  | .crash entry _ => some entry
  | .reopen => none

/-- A journal that has never been rotated. -/
def ofFile (rotationSize : Nat) (file : Bytes) : BadouJournal where
  file := file
  rotationSize := rotationSize
  currentSize := file.length

variable {rotationSize : Nat} {events : List (Event BadouJournalEntry)}

/-- An event adds its bytes, if its record does not go beyond the rotation
size. -/
theorem step_ofFile {file : Bytes} {event : Event BadouJournalEntry}
    (h : file.length + recordLength event ≤ rotationSize) :
    step (ofFile rotationSize file) event =
      ofFile rotationSize (file ++ event.bytes encodeEntry) := by
  have hroom : (ofFile rotationSize file).rotateFor (recordLength event) =
      ofFile rotationSize file := if_neg (Nat.not_lt.mpr h)
  cases event with
  | append entry =>
      rw [recordLength] at hroom
      simp only [step, append, Event.bytes, hroom]
      simp only [ofFile, List.length_append]
  | crash entry kept =>
      rw [recordLength] at hroom
      simp only [step, crash, hroom]
      rfl
  | reopen =>
      simp only [step, Event.bytes, List.append_nil]
      rfl

/-- Without a rotation the file holds all bytes of the run. -/
theorem run_eq_ofFile (h : NeverRotates rotationSize events) :
    run rotationSize events = ofFile rotationSize (written encodeEntry events) := by
  induction events using List.reverseRecOn with
  | nil =>
      rfl
  | append_singleton events event ih =>
      have hbefore : NeverRotates rotationSize events := by
        rintro before other after rfl
        exact h before other (after ++ [event]) (by simp)
      have hstep : step (run rotationSize events) event =
          ofFile rotationSize
            (written encodeEntry events ++ event.bytes encodeEntry) := by
        rw [ih hbefore]
        exact step_ofFile (h events event [] rfl)
      rw [run, List.foldl_concat, ← run, hstep, written, written,
        List.flatMap_append, List.flatMap_singleton]

/-- The reader stops at what a writer that was cut off leaves. -/
theorem readHead_torn {now : Bytes → DateTime} {tail : Bytes}
    (hcrash : ProperCrashes encodeEntry events)
    (hread : ∀ event ∈ events, ∀ entry ∈ entryOf event, Readable entry)
    (htail : tail = [] ∨ ∃ entry kept, Event.crash entry kept ∈ events ∧
      tail = (encodeEntry entry).take kept) :
    readHead now tail = .stop := by
  rcases htail with rfl | ⟨entry, kept, hmem, rfl⟩
  · rfl
  · exact (frames now).torn entry (hread _ hmem entry rfl) kept
      (hcrash entry kept hmem)

/-- In every run without a rotation in which nothing is written after a writer
was cut off in its record, exactly the entries whose append succeeded are read,
with their times in whole milliseconds. -/
theorem run_readAll (now : Bytes → DateTime)
    (hsize : NeverRotates rotationSize events)
    (hcrash : ProperCrashes encodeEntry events)
    (htear : NothingAfterTear encodeEntry events)
    (hread : ∀ event ∈ events, ∀ entry ∈ entryOf event, Readable entry) :
    (run rotationSize events).readAll now =
        .ok ((succeeded events).map recorded) ∧
      ((∀ entry ∈ succeeded events, recorded entry = entry) →
        (run rotationSize events).readAll now = .ok (succeeded events)) := by
  have hall : (run rotationSize events).readAll now =
      .ok ((succeeded events).map recorded) := by
    obtain ⟨tail, hwritten, htail⟩ :=
      exists_written_eq_append_torn (frames now).nonempty htear
    have hsucceeded : ∀ entry ∈ succeeded events, Readable entry := by
      intro entry hentry
      obtain ⟨event, hmem, happended⟩ := List.mem_filterMap.mp hentry
      cases event with
      | append other =>
          exact hread _ hmem entry happended
      | _ => cases happended
    have hstop : readHead now tail = .stop := readHead_torn hcrash hread htail
    rw [run_eq_ofFile hsize, readAll, readFrom, ofFile, List.drop_zero, hwritten,
      readAll_of_stop (frames now) hsucceeded hstop]
  refine ⟨hall, fun hwhole => ?_⟩
  rw [hall, List.map_congr_left hwhole, List.map_id']

end Runs

section Example

/-- The first entry of a commit, of a job whose identifier ends in the byte
255. -/
def exampleEntry : BadouJournalEntry where
  opType := .commitStep
  timestamp := 1700000000000 * 1000000
  jobId := 0x6f9619ff8b864d01b42d00cf4fc964ff
  payload := [0x73, 0x74, 0x61, 0x72, 0x74]
  committed := false

theorem readable_exampleEntry : Readable exampleEntry where
  payload := by decide
  timestamp := by
    constructor
    · decide
    · decide

/-- A crash behind an append does not take the entry away. -/
theorem readAll_before_crash :
    (run 1024 [.append exampleEntry, .crash exampleEntry 5]).readAll (fun _ => 0) =
        .ok [recorded exampleEntry] ∧
      ((∀ entry ∈ [exampleEntry], recorded entry = entry) →
        (run 1024 [.append exampleEntry, .crash exampleEntry 5]).readAll
          (fun _ => 0) = .ok [exampleEntry]) := by
  refine run_readAll (fun _ => 0) ?_ ?_ ⟨Or.inr rfl, trivial⟩ ?_
  · intro before event after hevents
    rcases before with _ | ⟨first, _ | ⟨second, before⟩⟩
    · cases hevents
      decide
    · cases hevents
      decide
    · simp at hevents
  · intro entry kept hmem
    rcases List.mem_pair.mp hmem with h | h
    · cases h
    · cases h
      decide
  · intro event hmem entry hentry
    have hexample : entry = exampleEntry := by
      rcases List.mem_pair.mp hmem with rfl | rfl
      · exact (Option.mem_some.mp hentry).symm
      · exact (Option.mem_some.mp hentry).symm
    rw [hexample]
    exact readable_exampleEntry

/-- One byte of a record that was cut off hides the append that follows. -/
theorem append_after_tear_not_read :
    1 < (encodeEntry exampleEntry).length ∧
      (written encodeEntry
        [.crash exampleEntry 1, .append exampleEntry]).length < 1024 ∧
      succeeded [.crash exampleEntry 1, .append exampleEntry] = [exampleEntry] ∧
      ¬ ∃ read, (run 1024 [.crash exampleEntry 1, .append exampleEntry]).readAll
          (fun _ => 0) = .ok read ∧ [recorded exampleEntry].Sublist read := by
  have hread : (run 1024 [.crash exampleEntry 1, .append exampleEntry]).readAll
      (fun _ => 0) = .ok [] := by
    rfl
  refine ⟨by decide +kernel, by decide +kernel, rfl, ?_⟩
  rintro ⟨entries, hentries, hsublist⟩
  rw [hread] at hentries
  cases hentries
  cases hsublist

end Example

end BadouJournal

end Badou
end HyperBackup
