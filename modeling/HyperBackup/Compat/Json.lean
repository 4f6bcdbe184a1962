import HyperBackup.Agent.Json
import HyperBackup.Compat.Repository

/-!
# The JSON text of a compatible repository

A manifest is written compactly, the metadata on several lines.
-/

namespace HyperBackup
namespace Compat
namespace Json

open Lib Lib.JsonText Agent

def compatFileEntry (f : CompatFileEntry) : String :=
  object [
    ("path", quote f.path),
    ("size", toString f.size),
    ("modified_at", time f.modifiedAt),
    ("chunks", array (f.chunks.map fun h => bytes h.digest.toList)),
    ("file_hash", bytes f.fileHash.toList)]

def compatibilityHashes (h : CompatibilityHashes) : String :=
  object [
    ("manifest_hash", bytes h.manifestHash.toList),
    ("file_index_hash", bytes h.fileIndexHash.toList),
    ("chunk_index_hash", bytes h.chunkIndexHash.toList)]

def compatibilityManifest (m : CompatibilityManifest) : String :=
  object [
    ("version_id", quote m.versionId),
    ("timestamp", time m.timestamp),
    ("parent_version_id", option quote m.parentVersionId),
    ("version_number", toString m.versionNumber),
    ("backup_type", quote m.backupType),
    ("files", array (m.files.map compatFileEntry)),
    ("chunk_refs", array (m.chunkRefs.map Agent.Json.chunkReference)),
    ("hashes", compatibilityHashes m.hashes)]

def compatRepoMetadata (m : CompatRepoMetadata) : String :=
  let fields := [
    ("repository_id", quote m.repositoryId),
    ("format_version", toString m.formatVersion),
    ("duplicati_semantic_version", quote m.duplicatiSemanticVersion),
    ("created_at", time m.createdAt)]
  let lines := fields.map fun e => "\n  " ++ quote e.1 ++ ": " ++ e.2
  "\x7b" ++ ",".intercalate lines ++ "\n\x7d"

/-- The texts of the metadata and the manifest, which alone can be read. -/
def only (metadata : CompatRepoMetadata) (manifest : CompatibilityManifest) :
    CompatJson where
  metadataToVec m := Hex.utf8 (compatRepoMetadata m)
  metadataFromSlice data :=
    if data = Hex.utf8 (compatRepoMetadata metadata) then .ok metadata
    else .error "expected value at line 1 column 1"
  manifestToVec m := Hex.utf8 (compatibilityManifest m)
  manifestFromSlice data :=
    if data = Hex.utf8 (compatibilityManifest manifest) then .ok manifest
    else .error "expected value at line 1 column 1"

end Json
end Compat
end HyperBackup
