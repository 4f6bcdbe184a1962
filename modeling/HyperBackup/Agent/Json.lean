import HyperBackup.Agent.Domain
import HyperBackup.Lib.JsonText

/-!
# The JSON text of a manifest

The compact text that a manifest or a chunk has in a repository: the fields in the
order of their declaration, identifiers as hyphenated text, digests as arrays
of numbers, times in the extended ISO 8601 form, and the chunk locations in
the order of their keys.
-/

namespace HyperBackup
namespace Agent
namespace Json

open Lib Lib.JsonText

def uuid (u : Uuid) : String :=
  quote (uuidText u)

def attributes (a : FileAttributes) : String :=
  object [
    ("is_directory", bool a.isDirectory),
    ("is_hidden", bool a.isHidden),
    ("is_system", bool a.isSystem),
    ("is_read_only", bool a.isReadOnly),
    ("windows_acl", option bytes a.windowsAcl)]

def fileEntry (f : FileEntry) : String :=
  object [
    ("path", quote f.path),
    ("size", toString f.size),
    ("modified_at", time f.modifiedAt),
    ("attributes", attributes f.attributes),
    ("chunks", array (f.chunks.map fun h => bytes h.digest.toList)),
    ("file_hash", bytes f.fileHash.toList)]

def chunkReference (r : ChunkReference) : String :=
  object [
    ("hash", bytes r.hash.digest.toList),
    ("version_id", uuid r.versionId.uuid),
    ("file_path", quote r.filePath),
    ("offset", toString r.offset)]

def chunkLocation (l : ChunkLocation) : String :=
  object [("bucket", quote l.bucket), ("path", quote l.path)]

def manifestHashes (h : ManifestHashes) : String :=
  object [
    ("manifest_hash", bytes h.manifestHash.toList),
    ("file_index_hash", bytes h.fileIndexHash.toList),
    ("chunk_index_hash", bytes h.chunkIndexHash.toList),
    ("repo_hash", bytes h.repoHash.toList)]

def backupType : BackupType → String
  | .full => quote "Full"
  | .incremental => quote "Incremental"

def manifest (m : Manifest) : String :=
  let locations := (HashMap.toList m.chunkLocations).mergeSort
    fun e e' => decide (e.1 ≤ e'.1)
  object [
    ("version_id", uuid m.versionId.uuid),
    ("timestamp", time m.timestamp),
    ("parent_version_id", option (fun v => uuid v.uuid) m.parentVersionId),
    ("version_number", toString m.versionNumber),
    ("backup_type", backupType m.backupType),
    ("files", array (m.files.map fileEntry)),
    ("chunk_refs", array (m.chunkRefs.map chunkReference)),
    ("hashes", manifestHashes m.hashes),
    ("chunk_locations",
      object (locations.map fun e => (e.1, chunkLocation e.2)))]

def encryptedChunk (c : EncryptedChunk) : String :=
  object [
    ("ciphertext", bytes c.ciphertext),
    ("nonce", bytes c.nonce.toList),
    ("auth_tag", bytes c.authTag.toList)]

/-- The bytes a chunk is uploaded as. -/
def encryptedChunkBytes (c : EncryptedChunk) : Bytes :=
  Hex.utf8 (encryptedChunk c)

/-- The bytes of a manifest file. -/
def manifestBytes (m : Manifest) : Bytes :=
  Hex.utf8 (manifest m)

/-- Manifests with the same text have the same identifier. -/
theorem versionId_eq_of_manifestBytes_eq {m m' : Manifest}
    (h : manifestBytes m = manifestBytes m') : m.versionId = m'.versionId := by
  have huuid : m.versionId.uuid = m'.versionId.uuid :=
    eq_of_object_quote_uuidText (Hex.utf8_injective h)
  cases hm : m.versionId
  cases hm' : m'.versionId
  rw [hm, hm'] at huuid
  exact congrArg VersionId.mk huuid

/-- The text of a manifest begins with a brace. -/
theorem head?_manifestBytes (m : Manifest) :
    (manifestBytes m).head? = some 0x7b := by
  rw [manifestBytes, manifest, object, Hex.utf8_append, Hex.utf8_append]
  rfl

end Json
end Agent
end HyperBackup
