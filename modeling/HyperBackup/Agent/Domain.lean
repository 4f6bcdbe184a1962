import HyperBackup.Domain
import HyperBackup.Lib.HashMap

/-!
# Domain types of the backup agent

Files, chunks, manifests and jobs as `hbx-core` has them.  A field that no
modelled function reads or writes is left out.  Times are nanoseconds since
1970; sizes that only add up in reports are natural numbers.
-/

namespace HyperBackup
namespace Agent

open Lib

structure ExecutionId where
  uuid : Uuid
deriving DecidableEq

structure ChunkId where
  uuid : Uuid
deriving DecidableEq

inductive ChunkError
  | readError (text : String)
  | invalidSize (size : Nat)
deriving DecidableEq

inductive CompressError
  | failed (text : String)
  | decompressFailed (text : String)
deriving DecidableEq

inductive EncryptError
  | keyUnavailable
  | authFailed
  | failed (text : String)
deriving DecidableEq

structure FileAttributes where
  isDirectory : Bool := false
  isHidden : Bool := false
  isSystem : Bool := false
  isReadOnly : Bool := false
  windowsAcl : Option Bytes := none
deriving DecidableEq

structure FileEntry where
  path : String
  size : Nat
  modifiedAt : DateTime
  attributes : FileAttributes
  chunks : List ChunkHash
  fileHash : HashDigest
deriving DecidableEq

structure ChunkLocation where
  bucket : String
  path : String
deriving DecidableEq

structure ChunkReference where
  hash : ChunkHash
  versionId : VersionId
  filePath : String
  offset : Nat
deriving DecidableEq

inductive BackupType
  | full
  | incremental
deriving DecidableEq

structure ManifestHashes where
  manifestHash : HashDigest
  fileIndexHash : HashDigest
  chunkIndexHash : HashDigest
  repoHash : HashDigest
deriving DecidableEq

structure Manifest where
  versionId : VersionId
  timestamp : DateTime
  parentVersionId : Option VersionId
  versionNumber : Nat
  backupType : BackupType
  files : List FileEntry
  chunkRefs : List ChunkReference
  hashes : ManifestHashes
  chunkLocations : HashMap String ChunkLocation

/-- A piece of a file as the chunker cuts it. -/
structure RawChunkData where
  offset : Nat
  data : Bytes
deriving DecidableEq

structure EncryptedChunk where
  ciphertext : Bytes
  nonce : List.Vector UInt8 12
  authTag : List.Vector UInt8 16
deriving DecidableEq

inductive ChunkStrategy
  | fixed (chunkSize : Nat)
  | cdc (minSize avgSize maxSize : Nat)
deriving DecidableEq

inductive ChunkingProfile
  | small
  | standard
  | large
  | adaptive
deriving DecidableEq

def ChunkingProfile.toChunkStrategy (fileSize : Nat) :
    ChunkingProfile → ChunkStrategy
  | .small => .fixed (256 * 1024)
  | .standard => .fixed (512 * 1024)
  | .large => .fixed (1024 * 1024)
  | .adaptive =>
      let mb := 1024 * 1024
      let gb := 1024 * mb
      if fileSize < 16 * mb then .fixed (256 * 1024)
      else if fileSize < 256 * mb then .fixed (512 * 1024)
      else if fileSize < 4 * gb then .fixed mb
      else .cdc (4 * mb) (8 * mb) (64 * mb)

structure BackupJob where
  jobId : JobId
  chunkingProfile : ChunkingProfile
deriving DecidableEq

/-- A 64-bit floating-point number, as its bits. -/
structure F64 where
  bits : UInt64
deriving DecidableEq

namespace F64

def ofFloat (x : Float) : F64 :=
  ⟨x.toBits⟩

/-- The quotient of two counters. -/
def ratio (a b : Nat) : Float :=
  (UInt64.ofNat a).toFloat / (UInt64.ofNat b).toFloat

end F64

structure Duration where
  secs : UInt64
  nanos : UInt32
deriving DecidableEq

structure BackupResult where
  versionId : Option VersionId
  dataProcessed : Nat
  dataStored : Nat
  dedupRatio : F64
  chunkCount : Nat
  fileCount : Nat
  duration : Duration
  skippedFiles : List String
deriving DecidableEq

structure BackupError where
  code : String
  message : String
  filePath : Option String
deriving DecidableEq

def computeDedupRatio (processed stored : Nat) : F64 :=
  if processed = 0 then ⟨0⟩ else .ofFloat (1 - F64.ratio stored processed)

structure FileSnapshotEntry where
  path : String
  size : Nat
  mtime : DateTime
  fileHash : HashDigest
deriving DecidableEq

structure BackupSnapshot where
  versionId : VersionId
  timestamp : DateTime
  files : List FileSnapshotEntry
deriving DecidableEq

/-- The digest of 32 zero bytes. -/
def zeroDigest : HashDigest :=
  List.Vector.replicate 32 0

end Agent
end HyperBackup
