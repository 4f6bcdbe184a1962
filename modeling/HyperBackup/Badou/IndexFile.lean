import HyperBackup.Badou.Index
import HyperBackup.Lib.JsonText

/-!
# The index file

The index lives in memory and is written to its file as a whole after every
update: first the update, then the new contents over the old ones.  The file
is read when the index is opened.  The JSON library is a parameter.

A writer that is cut off leaves the first bytes of the new contents and nothing
of the old ones.  After that the index cannot be opened any more.
-/

namespace HyperBackup
namespace Badou

open Lib

/-- What the index file holds: the chunks, the lists of the versions, the hashes
of the manifests and the consistency mark. -/
structure PersistedIndex extends BadouIndex where
  manifestHashes : HashMap Uuid String
  consistent : Bool

namespace PersistedIndex

/-- The index of a file that does not exist. -/
def fresh : PersistedIndex where
  toBadouIndex := .inMemory
  manifestHashes := ∅
  consistent := true

/-- The same contents, in whatever order the maps have them. -/
structure Same (a b : PersistedIndex) : Prop where
  chunkIndex : ∀ chunkHash, a.lookup chunkHash = b.lookup chunkHash
  versionChunks : ∀ versionId,
    a.versionChunks.lookup versionId = b.versionChunks.lookup versionId
  manifestHashes : ∀ manifestId,
    a.manifestHashes.lookup manifestId = b.manifestHashes.lookup manifestId
  consistent : a.consistent = b.consistent

namespace Same

variable {a b c : PersistedIndex}

theorem refl (a : PersistedIndex) : Same a a where
  chunkIndex := fun _ => rfl
  versionChunks := fun _ => rfl
  manifestHashes := fun _ => rfl
  consistent := rfl

theorem symm (h : Same a b) : Same b a where
  chunkIndex := fun k => (h.chunkIndex k).symm
  versionChunks := fun v => (h.versionChunks v).symm
  manifestHashes := fun m => (h.manifestHashes m).symm
  consistent := h.consistent.symm

theorem trans (h : Same a b) (h' : Same b c) : Same a c where
  chunkIndex := fun k => (h.chunkIndex k).trans (h'.chunkIndex k)
  versionChunks := fun v => (h.versionChunks v).trans (h'.versionChunks v)
  manifestHashes := fun m => (h.manifestHashes m).trans (h'.manifestHashes m)
  consistent := h.consistent.trans h'.consistent

end Same

/-- The operations that change an index. -/
inductive Op
  | register (chunkHash : String) (entry : ChunkIndexEntry)
  | incrementRefCount (chunkHash : String)
  | decrementRefCount (chunkHash : String)
  | updateStatus (chunkHash : String) (status : ChunkIndexStatus)
  | registerVersionChunks (versionId : Uuid) (chunkHashes : List String)
  | registerManifestHash (manifestId : Uuid) (hash : String)
  | markInconsistent
  | markConsistent
deriving DecidableEq

/-- What an operation does while it holds the lock. -/
def update (data : PersistedIndex) : Op → Except IndexError PersistedIndex
  | .register chunkHash entry =>
      .ok { data with toBadouIndex := data.register chunkHash entry }
  | .incrementRefCount chunkHash =>
      (data.incrementRefCount chunkHash).map fun result =>
        { data with toBadouIndex := result.2 }
  | .decrementRefCount chunkHash =>
      (data.decrementRefCount chunkHash).map fun result =>
        { data with toBadouIndex := result.2 }
  | .updateStatus chunkHash status =>
      (data.updateStatus chunkHash status).map fun result =>
        { data with toBadouIndex := result.2 }
  | .registerVersionChunks versionId chunkHashes =>
      .ok { data with
        toBadouIndex := data.registerVersionChunks versionId chunkHashes }
  | .registerManifestHash manifestId hash =>
      .ok { data with
        manifestHashes := data.manifestHashes.insert manifestId hash }
  | .markInconsistent => .ok { data with consistent := false }
  | .markConsistent => .ok { data with consistent := true }

end PersistedIndex

open PersistedIndex

/-- The JSON library. -/
structure IndexJson where
  toVec : PersistedIndex → Bytes
  fromSlice : Bytes → Except String PersistedIndex

namespace IndexJson

/-- What is written of an index is read back. -/
def RoundTrips (json : IndexJson) (data : PersistedIndex) : Prop :=
  ∃ read, json.fromSlice (json.toVec data) = .ok read ∧ read.Same data

/-- No first part of what is written of an index can be read. -/
def RejectsParts (json : IndexJson) (data : PersistedIndex) : Prop :=
  ∀ k < (json.toVec data).length,
    ∃ e, json.fromSlice ((json.toVec data).take k) = .error e

end IndexJson

inductive IndexOpenError
  | serde (e : String)
deriving DecidableEq

/-- An open index and its file. -/
structure IndexFile where
  memory : PersistedIndex
  file : Option Bytes

/-- Where an operation is cut off: before it writes the file, when some bytes
are written, or after that. -/
inductive CrashPoint
  | beforeWrite
  | duringWrite (kept : Nat)
  | afterWrite
deriving DecidableEq

namespace IndexFile

section Operations

variable (json : IndexJson)

/-- Open the index of a file; one that does not exist counts as empty. -/
def openIndex : Option Bytes → Except IndexOpenError PersistedIndex
  | none => .ok .fresh
  | some data =>
      match json.fromSlice data with
      | .ok persisted => .ok persisted
      | .error e => .error (.serde e)

def persist (s : IndexFile) : IndexFile :=
  { s with file := some (json.toVec s.memory) }

/-- A whole operation; one that fails writes nothing. -/
def perform (s : IndexFile) (op : Op) : IndexFile :=
  match s.memory.update op with
  | .error _ => s
  | .ok memory => persist json { s with memory := memory }

/-- The file after an operation that was cut off. -/
def crash (s : IndexFile) (op : Op) (point : CrashPoint) : Option Bytes :=
  match s.memory.update op with
  | .error _ => s.file
  | .ok memory =>
      match point with
      | .beforeWrite => s.file
      | .duringWrite kept => some ((json.toVec memory).take kept)
      | .afterWrite => some (json.toVec memory)

/-- An index that has just been created. -/
def create : IndexFile where
  memory := .fresh
  file := none

def run (ops : List Op) : IndexFile :=
  ops.foldl (perform json) create

end Operations

section Persisted

variable {json : IndexJson}

/-- The file holds what is in memory. -/
def Persisted (json : IndexJson) (s : IndexFile) : Prop :=
  s.file = none ∧ s.memory = .fresh ∨ s.file = some (json.toVec s.memory)

theorem openIndex_toVec {data : PersistedIndex} (hread : json.RoundTrips data) :
    ∃ read, openIndex json (some (json.toVec data)) = .ok read ∧
      read.Same data := by
  obtain ⟨read, hslice, hsame⟩ := hread
  refine ⟨read, ?_, hsame⟩
  rw [openIndex, hslice]

/-- A persisted index is opened as it is. -/
theorem Persisted.openIndex {s : IndexFile} (h : Persisted json s)
    (hread : json.RoundTrips s.memory) :
    ∃ read, IndexFile.openIndex json s.file = .ok read ∧ read.Same s.memory := by
  rcases h with ⟨hfile, hmemory⟩ | hfile
  · refine ⟨.fresh, ?_, ?_⟩
    · rw [hfile]
      rfl
    · rw [hmemory]
      exact .refl _
  · rw [hfile]
    exact openIndex_toVec hread

/-- An operation leaves the file with what is in memory. -/
theorem persisted_perform {s : IndexFile} (h : Persisted json s) (op : Op) :
    Persisted json (perform json s op) := by
  unfold perform
  cases s.memory.update op with
  | error e =>
      exact h
  | ok memory =>
      exact Or.inr rfl

theorem persisted_run (ops : List Op) : Persisted json (run json ops) := by
  refine List.foldlRecOn ops _ (motive := Persisted json)
    (Or.inl ⟨rfl, rfl⟩) ?_
  intro s hs op _
  exact persisted_perform hs op

end Persisted

section Crash

variable (json : IndexJson)

/-- The writing of the file is cut off before its last byte. -/
def Torn (s : IndexFile) (op : Op) (point : CrashPoint) : Prop :=
  ∃ memory kept, s.memory.update op = .ok memory ∧
    point = .duringWrite kept ∧ kept < (json.toVec memory).length

variable {json}

/-- A file with a part of the contents cannot be opened. -/
theorem openIndex_crash_of_torn {s : IndexFile} {op : Op} {point : CrashPoint}
    (h : Torn json s op point)
    (hparts : json.RejectsParts (perform json s op).memory) :
    ∃ e, openIndex json (crash json s op point) = .error e := by
  obtain ⟨memory, kept, hupdate, rfl, hkept⟩ := h
  have hmemory : (perform json s op).memory = memory := by
    rw [perform, hupdate]
    rfl
  rw [hmemory] at hparts
  obtain ⟨e, he⟩ := hparts kept hkept
  refine ⟨.serde e, ?_⟩
  simp only [crash, hupdate, openIndex, he]

/-- A file that is not torn has the contents from before or after the
operation. -/
theorem crash_of_not_torn {s : IndexFile} {op : Op} {point : CrashPoint}
    (h : ¬ Torn json s op point) :
    crash json s op point = s.file ∨
      crash json s op point =
        some (json.toVec (perform json s op).memory) := by
  unfold crash perform
  cases hupdate : s.memory.update op with
  | error e =>
      exact Or.inl rfl
  | ok memory =>
      cases point with
      | beforeWrite =>
          exact Or.inl rfl
      | duringWrite kept =>
          right
          have hkept : (json.toVec memory).length ≤ kept := by
            by_contra hlt
            exact h ⟨memory, kept, hupdate, rfl, Nat.lt_of_not_le hlt⟩
          simp only [persist, List.take_of_length_le hkept]
      | afterWrite =>
          exact Or.inr rfl

/-- A file of which every byte was written is not torn. -/
theorem not_torn_of_all_kept {s : IndexFile} {op : Op} {memory : PersistedIndex}
    (hupdate : s.memory.update op = .ok memory) :
    ¬ Torn json s op (.duringWrite (json.toVec memory).length) := by
  rintro ⟨memory', kept, hupdate', hpoint, hkept⟩
  rw [hupdate, Except.ok.injEq] at hupdate'
  rw [CrashPoint.duringWrite.injEq] at hpoint
  rw [← hupdate', ← hpoint] at hkept
  exact Nat.lt_irrefl _ hkept

/-- After a run and an operation that was cut off, the index is opened with the
contents from before or after that operation, exactly if the writing of the
file was not cut off before its last byte. -/
theorem openIndex_crash_iff (ops : List Op) (op : Op) (point : CrashPoint)
    (hbefore : json.RoundTrips (run json ops).memory)
    (hafter : json.RoundTrips (perform json (run json ops) op).memory)
    (hparts : json.RejectsParts (perform json (run json ops) op).memory) :
    (∃ read, openIndex json (crash json (run json ops) op point) = .ok read ∧
        (read.Same (run json ops).memory ∨
          read.Same (perform json (run json ops) op).memory)) ↔
      ¬ Torn json (run json ops) op point := by
  constructor
  · rintro ⟨read, hread, -⟩ htorn
    obtain ⟨e, he⟩ := openIndex_crash_of_torn htorn hparts
    rw [he] at hread
    cases hread
  · intro htorn
    rcases crash_of_not_torn htorn with hcrash | hcrash
    · obtain ⟨read, hopen, hsame⟩ := (persisted_run ops).openIndex hbefore
      exact ⟨read, by rw [hcrash, hopen], Or.inl hsame⟩
    · obtain ⟨read, hopen, hsame⟩ := openIndex_toVec hafter
      exact ⟨read, by rw [hcrash, hopen], Or.inr hsame⟩

end Crash

section Example

/-- The text of an index with the texts of its three maps. -/
def indexText (chunkIndex versionChunks manifestHashes : String)
    (consistent : Bool) : String :=
  JsonText.object [
    ("chunk_index", chunkIndex),
    ("version_chunks", versionChunks),
    ("manifest_hashes", manifestHashes),
    ("consistent", JsonText.bool consistent)]

/-- The texts for the two marks differ in the mark only. -/
theorem exists_utf8_indexText_eq
    (chunkIndex versionChunks manifestHashes : String) :
    ∃ head rest, ∀ consistent,
      Hex.utf8 (indexText chunkIndex versionChunks manifestHashes consistent) =
        head ++ (Hex.utf8 (JsonText.bool consistent) ++ rest) := by
  obtain ⟨front, back, htext⟩ := JsonText.exists_object_eq "consistent"
    [("chunk_index", chunkIndex), ("version_chunks", versionChunks),
      ("manifest_hashes", manifestHashes)] []
  refine ⟨Hex.utf8 front, Hex.utf8 back, fun consistent => ?_⟩
  rw [← Hex.utf8_append, ← Hex.utf8_append, ← String.append_assoc]
  exact congrArg Hex.utf8 (htext (JsonText.bool consistent))

/-- A JSON library on two indexes that differ in the consistency mark, with
the texts it writes. -/
def flagJson (index : Bool → PersistedIndex) (text : Bool → String) :
    IndexJson where
  toVec data := Hex.utf8 (text data.consistent)
  fromSlice data :=
    if data = Hex.utf8 (text true) then .ok (index true)
    else if data = Hex.utf8 (text false) then .ok (index false)
    else .error "EOF while parsing an object at line 1 column 1"

section Flag

variable {index : Bool → PersistedIndex} {text : Bool → String}

theorem toVec_flagJson (hindex : ∀ c, (index c).consistent = c)
    (consistent : Bool) :
    (flagJson index text).toVec (index consistent) =
      Hex.utf8 (text consistent) := by
  simp only [flagJson, hindex]

theorem roundTrips_flagJson (hindex : ∀ c, (index c).consistent = c)
    (hne : Hex.utf8 (text false) ≠ Hex.utf8 (text true)) (consistent : Bool) :
    (flagJson index text).RoundTrips (index consistent) := by
  refine ⟨index consistent, ?_, .refl _⟩
  rw [toVec_flagJson hindex]
  cases consistent with
  | true =>
      simp [flagJson]
  | false =>
      simp [flagJson, hne]

theorem fromSlice_flagJson_of_ne {data : Bytes}
    (hne : ∀ c, data ≠ Hex.utf8 (text c)) :
    (flagJson index text).fromSlice data =
      .error "EOF while parsing an object at line 1 column 1" := by
  simp [flagJson, hne]

theorem rejectsParts_flagJson (hindex : ∀ c, (index c).consistent = c)
    (hne : ∀ c c' k, k < (Hex.utf8 (text c)).length →
      (Hex.utf8 (text c)).take k ≠ Hex.utf8 (text c')) (consistent : Bool) :
    (flagJson index text).RejectsParts (index consistent) := by
  intro k hk
  rw [toVec_flagJson hindex] at hk ⊢
  exact ⟨_, fromSlice_flagJson_of_ne fun c' => hne consistent c' k hk⟩

end Flag

section IndexText

variable {chunkIndex versionChunks manifestHashes : String}

theorem utf8_indexText_ne :
    Hex.utf8 (indexText chunkIndex versionChunks manifestHashes false) ≠
      Hex.utf8 (indexText chunkIndex versionChunks manifestHashes true) := by
  obtain ⟨head, rest, htext⟩ :=
    exists_utf8_indexText_eq chunkIndex versionChunks manifestHashes
  rw [htext, htext]
  intro heq
  have hflag := List.append_cancel_right (List.append_cancel_left heq)
  exact absurd hflag (by decide)

/-- A proper part of one text is not the other text either. -/
theorem take_ne_utf8_indexText (c c' : Bool) (k : Nat)
    (hk : k < (Hex.utf8
      (indexText chunkIndex versionChunks manifestHashes c)).length) :
    (Hex.utf8 (indexText chunkIndex versionChunks manifestHashes c)).take k ≠
      Hex.utf8 (indexText chunkIndex versionChunks manifestHashes c') := by
  obtain ⟨head, rest, htext⟩ :=
    exists_utf8_indexText_eq chunkIndex versionChunks manifestHashes
  have htrue : Hex.utf8 (JsonText.bool true) = [0x74, 0x72, 0x75, 0x65] := by
    decide
  have hfalse : Hex.utf8 (JsonText.bool false) =
      [0x66, 0x61, 0x6c, 0x73, 0x65] := by
    decide
  rw [htext] at hk ⊢
  rw [htext]
  intro heq
  have hlen := congrArg List.length heq
  rw [List.length_take, Nat.min_eq_left (Nat.le_of_lt hk)] at hlen
  cases c with
  | true =>
      cases c' with
      | true =>
          omega
      | false =>
          rw [htrue] at hk
          rw [hfalse] at hlen
          simp only [List.length_append, List.length_cons, List.length_nil]
            at hk hlen
          omega
  | false =>
      cases c' with
      | true =>
          -- The texts differ in the first letter of the mark.
          rw [hlen, List.length_append, List.take_length_add_append, hfalse,
            htrue] at heq
          simp at heq
      | false =>
          omega

end IndexText

def emptyIndex (consistent : Bool) : PersistedIndex where
  toBadouIndex := .inMemory
  manifestHashes := ∅
  consistent := consistent

/-- The JSON library on indexes without entries. -/
def emptyJson : IndexJson :=
  flagJson emptyIndex (indexText (JsonText.object []) (JsonText.object [])
    (JsonText.object []))

theorem roundTrips_emptyJson (consistent : Bool) :
    emptyJson.RoundTrips (emptyIndex consistent) :=
  roundTrips_flagJson (fun _ => rfl) utf8_indexText_ne consistent

theorem rejectsParts_emptyJson (consistent : Bool) :
    emptyJson.RejectsParts (emptyIndex consistent) :=
  rejectsParts_flagJson (fun _ => rfl) take_ne_utf8_indexText consistent

/-- The hash of the chunk of the example. -/
def storedHash : String :=
  "6437b3ac38465133ffb63b75273a8db548c558465d79db03fd359c6cd5bd9d85"

/-- The entry of a chunk that one version lists. -/
def storedEntry : ChunkIndexEntry where
  bucket := "64"
  path := "chunks/64/" ++ storedHash ++ ".chunk"
  refCount := 1
  size := 3
  storedSize := 3
  status := .active

/-- An index with a chunk, a version that lists it and a manifest hash. -/
def filledIndex (consistent : Bool) : PersistedIndex where
  chunkIndex := AList.insert storedHash storedEntry ∅
  versionChunks := AList.insert 5#128 [storedHash] ∅
  manifestHashes := AList.insert 6#128 storedHash ∅
  consistent := consistent

/-- The JSON library on that index; the text of the entry has the time at
which the chunk was stored. -/
def filledJson : IndexJson :=
  flagJson filledIndex (indexText
    (JsonText.object [(storedHash, JsonText.object [
      ("bucket", JsonText.quote storedEntry.bucket),
      ("path", JsonText.quote storedEntry.path),
      ("ref_count", "1"),
      ("size", "3"),
      ("stored_size", "3"),
      ("created_at", JsonText.quote "2025-01-01T00:00:00Z"),
      ("status", JsonText.quote "Active")])])
    (JsonText.object [
      (uuidText 5#128, JsonText.array [JsonText.quote storedHash])])
    (JsonText.object [(uuidText 6#128, JsonText.quote storedHash)]))

/-- The operations that lead to that index. -/
def filling : List Op :=
  [.register storedHash storedEntry, .registerVersionChunks 5#128 [storedHash],
    .registerManifestHash 6#128 storedHash, .markInconsistent]

theorem memory_run_filling (json : IndexJson) :
    (run json filling).memory = filledIndex false :=
  rfl

/-- A crash after the last byte is harmless. -/
theorem openIndex_after_whole_write :
    ∃ read, openIndex filledJson (crash filledJson (run filledJson filling)
        .markConsistent
        (.duringWrite (filledJson.toVec (filledIndex true)).length)) = .ok read ∧
      (read.Same (run filledJson filling).memory ∨
        read.Same (perform filledJson (run filledJson filling)
          .markConsistent).memory) := by
  have hbefore := memory_run_filling filledJson
  have hafter : (perform filledJson (run filledJson filling)
      .markConsistent).memory = filledIndex true :=
    rfl
  refine (openIndex_crash_iff filling .markConsistent _ ?_ ?_ ?_).mpr ?_
  · rw [hbefore]
    exact roundTrips_flagJson (fun _ => rfl) utf8_indexText_ne false
  · rw [hafter]
    exact roundTrips_flagJson (fun _ => rfl) utf8_indexText_ne true
  · rw [hafter]
    exact rejectsParts_flagJson (fun _ => rfl) take_ne_utf8_indexText true
  · refine not_torn_of_all_kept ?_
    rw [hbefore]
    rfl

/-- A crash after the first byte makes the index useless. -/
theorem openIndex_after_first_byte :
    ¬ ∃ read, openIndex emptyJson (crash emptyJson (run emptyJson [])
        .markInconsistent (.duringWrite 1)) = .ok read := by
  have htorn : Torn emptyJson (run emptyJson []) .markInconsistent
      (.duringWrite 1) :=
    ⟨emptyIndex false, 1, rfl, rfl, by decide +kernel⟩
  obtain ⟨e, herror⟩ := openIndex_crash_of_torn htorn
    (rejectsParts_emptyJson false)
  rintro ⟨read, hread⟩
  rw [herror] at hread
  cases hread

end Example

end IndexFile

end Badou
end HyperBackup
