import HyperBackup.Badou.Snapshot
import HyperBackup.Lib.JsonText

/-!
# The JSON text of manifests and snapshots

The compact text that the server writes: the fields in the order of their
declaration, identifiers as hyphenated text, hashes as arrays of numbers and
times in the extended ISO 8601 form.
-/

namespace HyperBackup
namespace Badou
namespace Json

open Lib Lib.JsonText

def uuid (u : Uuid) : String :=
  quote (uuidText u)

def chunkHash (h : ChunkHash) : String :=
  bytes h.digest.toList

def chunkRef (r : ChunkRef) : String :=
  object [
    ("chunk_hash", chunkHash r.chunkHash),
    ("offset", toString r.offset.toNat),
    ("size", toString r.size.toNat)]

def manifest (m : Manifest) : String :=
  object [
    ("manifest_id", uuid m.manifestId),
    ("snapshot_id", uuid m.snapshotId),
    ("file_tree", bytes m.fileTree),
    ("chunk_refs", array (m.chunkRefs.map chunkRef)),
    ("created_at", time m.createdAt)]

def sourceMachine (m : SourceMachine) : String :=
  object [
    ("hostname", quote m.hostname),
    ("os_type", quote m.osType),
    ("agent_version", quote m.agentVersion)]

def strings (texts : List String) : String :=
  array (texts.map quote)

def backupPolicy (p : BackupPolicy) : String :=
  object [
    ("paths", strings p.paths),
    ("excludes", strings p.excludes),
    ("includes", strings p.includes)]

def fileEntry (f : FileEntry) : String :=
  object [
    ("path", quote f.path),
    ("size", toString f.size.toNat),
    ("is_directory", bool f.isDirectory),
    ("chunk_hashes", array (f.chunkHashes.map chunkHash))]

def fileTree (t : FileTree) : String :=
  object [
    ("root", quote t.root),
    ("entries", array (t.entries.map fileEntry))]

def chunkMappingEntry (e : ChunkMappingEntry) : String :=
  object [
    ("file_path", quote e.filePath),
    ("offset", toString e.offset.toNat),
    ("chunk_hash", chunkHash e.chunkHash),
    ("size", toString e.size.toNat)]

def keyRef (r : KeyRef) : String :=
  object [("key_id", uuid r.keyId), ("key_source", quote r.keySource)]

def encryptionInfo (i : EncryptionInfo) : String :=
  object [
    ("enabled", bool i.enabled),
    ("algorithm", quote i.algorithm),
    ("key_ref", option keyRef i.keyRef)]

def compressionInfo (i : CompressionInfo) : String :=
  object [("algorithm", quote i.algorithm), ("level", toString i.level.toNat)]

def verifyInfo (i : VerifyInfo) : String :=
  object [
    ("verified", bool i.verified),
    ("verified_at", option time i.verifiedAt),
    ("checksum", option quote i.checksum)]

def snapshotStatus : SnapshotStatus → String
  | .created => quote "Created"
  | .writing => quote "Writing"
  | .sealed => quote "Sealed"
  | .corrupt => quote "Corrupt"
  | .deleted => quote "Deleted"

def snapshot (s : Snapshot) : String :=
  object [
    ("snapshot_id", uuid s.snapshotId),
    ("version_id", uuid s.versionId.uuid),
    ("source_machine", sourceMachine s.sourceMachine),
    ("backup_policy", backupPolicy s.backupPolicy),
    ("file_tree", fileTree s.fileTree),
    ("chunk_mapping",
      object [("mappings", array (s.chunkMapping.map chunkMappingEntry))]),
    ("encryption_info", encryptionInfo s.encryptionInfo),
    ("compression_info", compressionInfo s.compressionInfo),
    ("verify_info", verifyInfo s.verifyInfo),
    ("status", snapshotStatus s.status),
    ("created_at", time s.createdAt),
    ("total_size", toString s.totalSize.toNat),
    ("stored_size", toString s.storedSize.toNat),
    ("file_count", toString s.fileCount.toNat),
    ("chunk_count", toString s.chunkCount.toNat)]

/-- Snapshots that differ in their status have different texts. -/
theorem utf8_snapshot_injective (s : Snapshot) :
    Function.Injective fun status =>
      Hex.utf8 (snapshot { s with status := status }) := by
  intro status status' heq
  obtain ⟨front, back, h⟩ := exists_object_eq "status" [
      ("snapshot_id", uuid s.snapshotId),
      ("version_id", uuid s.versionId.uuid),
      ("source_machine", sourceMachine s.sourceMachine),
      ("backup_policy", backupPolicy s.backupPolicy),
      ("file_tree", fileTree s.fileTree),
      ("chunk_mapping",
        object [("mappings", array (s.chunkMapping.map chunkMappingEntry))]),
      ("encryption_info", encryptionInfo s.encryptionInfo),
      ("compression_info", compressionInfo s.compressionInfo),
      ("verify_info", verifyInfo s.verifyInfo)] [
      ("created_at", time s.createdAt),
      ("total_size", toString s.totalSize.toNat),
      ("stored_size", toString s.storedSize.toNat),
      ("file_count", toString s.fileCount.toNat),
      ("chunk_count", toString s.chunkCount.toNat)]
  have htext : ∀ status, Hex.utf8 (snapshot { s with status := status }) =
      Hex.utf8 front ++ Hex.utf8 (snapshotStatus status) ++ Hex.utf8 back := by
    intro status
    rw [← Hex.utf8_append, ← Hex.utf8_append, ← h]
    simp only [snapshot, List.cons_append, List.nil_append]
  simp only [htext, List.append_cancel_right_eq, List.append_cancel_left_eq]
    at heq
  revert heq
  cases status with
  | _ =>
      cases status' with
      | _ => decide

/-- Snapshots with the same text have the same identifier. -/
theorem snapshotId_eq_of_utf8_eq {s s' : Snapshot}
    (h : Hex.utf8 (snapshot s) = Hex.utf8 (snapshot s')) :
    s.snapshotId = s'.snapshotId :=
  eq_of_object_quote_uuidText (Hex.utf8_injective h)

/-- A reader that knows some snapshots. -/
def readerOf (known : List Snapshot) (data : Bytes) : Except String Snapshot :=
  match known.find? fun s => Hex.utf8 (snapshot s) = data with
  | some s => .ok s
  | none => .error "EOF while parsing a value at line 1 column 0"

/-- It reads them back if they have different identifiers. -/
theorem readerOf_eq {known : List Snapshot} {s : Snapshot}
    (hdistinct : (known.map Snapshot.snapshotId).Nodup) (hs : s ∈ known) :
    readerOf known (Hex.utf8 (snapshot s)) = .ok s := by
  unfold readerOf
  cases hfind : known.find? fun s' => Hex.utf8 (snapshot s') =
      Hex.utf8 (snapshot s) with
  | none =>
      simpa using List.find?_eq_none.mp hfind s hs
  | some s' =>
      have htext : Hex.utf8 (snapshot s') = Hex.utf8 (snapshot s) := by
        simpa using List.find?_some hfind
      obtain rfl := List.inj_on_of_nodup_map hdistinct
        (List.mem_of_find?_eq_some hfind) hs (snapshotId_eq_of_utf8_eq htext)
      rfl

/-- JSON as the server writes it, read by the given functions. -/
def withReaders
    (manifestFromSlice : Bytes → Except String Manifest)
    (snapshotFromSlice : Bytes → Except String Snapshot) : Json where
  manifestToVec := fun m => Hex.utf8 (manifest m)
  manifestFromSlice := manifestFromSlice
  snapshotToVec := fun s => Hex.utf8 (snapshot s)
  snapshotFromSlice := snapshotFromSlice
  policyToVec := fun p => Hex.utf8 (backupPolicy p)
  policyFromSlice := fun _ => .error "EOF while parsing a value at line 1 column 0"
  encryptionToVec := fun i => Hex.utf8 (encryptionInfo i)
  encryptionFromSlice := fun _ =>
    .error "EOF while parsing a value at line 1 column 0"
  compressionToVec := fun i => Hex.utf8 (compressionInfo i)
  compressionFromSlice := fun _ =>
    .error "EOF while parsing a value at line 1 column 0"

section Writers

variable (manifestFromSlice : Bytes → Except String Manifest)
variable (snapshotFromSlice : Bytes → Except String Snapshot)

@[simp]
theorem withReaders_manifestToVec (m : Manifest) :
    (withReaders manifestFromSlice snapshotFromSlice).manifestToVec m =
      Hex.utf8 (manifest m) := by
  simp only [withReaders]

@[simp]
theorem withReaders_manifestFromSlice (data : Bytes) :
    (withReaders manifestFromSlice snapshotFromSlice).manifestFromSlice data =
      manifestFromSlice data := by
  simp only [withReaders]

@[simp]
theorem withReaders_snapshotFromSlice (data : Bytes) :
    (withReaders manifestFromSlice snapshotFromSlice).snapshotFromSlice data =
      snapshotFromSlice data := by
  simp only [withReaders]

@[simp]
theorem withReaders_snapshotToVec (s : Snapshot) :
    (withReaders manifestFromSlice snapshotFromSlice).snapshotToVec s =
      Hex.utf8 (snapshot s) := by
  simp only [withReaders]

end Writers

section Status

/-- A reader that knows the texts of a snapshot in every status. -/
def readStatus (s : Snapshot) (data : Bytes) : Except String Snapshot :=
  let known := [SnapshotStatus.created, .writing, .sealed, .corrupt, .deleted]
  match known.find? fun status =>
      data = Hex.utf8 (snapshot { s with status := status }) with
  | some status => .ok { s with status := status }
  | none => .error "EOF while parsing a value at line 1 column 0"

theorem readStatus_utf8_snapshot (s : Snapshot) (status : SnapshotStatus) :
    readStatus s (Hex.utf8 (snapshot { s with status := status })) =
      .ok { s with status := status } := by
  have hinj : ∀ status', Hex.utf8 (snapshot { s with status := status }) =
      Hex.utf8 (snapshot { s with status := status' }) ↔ status = status' :=
    fun status' => (utf8_snapshot_injective s).eq_iff
  unfold readStatus
  simp only [hinj]
  cases status with
  | _ => rfl

end Status

end Json
end Badou
end HyperBackup
