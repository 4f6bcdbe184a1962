import HyperBackup.Agent.Json

/-!
# The compatible repository and its adapter

The directories of a compatible repository are maps from names to files:
`dlists` has a file for every version, `dblocks` has a directory for every first
byte of a hash and in it a file for every chunk.  A directory in `dlists` and a
file beside the directories of `dblocks` are passed over wherever these are read,
and are left out; a directory among the files of chunks is not passed over.

The engine writes through an adapter.  A chunk that has a file is not written
again; a manifest replaces the one that its version had.  JSON for manifests is a
parameter.
-/

namespace HyperBackup
namespace Compat

open Lib Agent

structure CompatFileEntry where
  path : String
  size : Nat
  modifiedAt : DateTime
  chunks : List ChunkHash
  fileHash : HashDigest
deriving DecidableEq

structure CompatChunkLocation where
  bucket : String
  path : String
deriving DecidableEq

structure CompatibilityHashes where
  manifestHash : HashDigest
  fileIndexHash : HashDigest
  chunkIndexHash : HashDigest
deriving DecidableEq

structure CompatibilityManifest where
  versionId : String
  timestamp : DateTime
  parentVersionId : Option String
  versionNumber : Nat
  backupType : String
  files : List CompatFileEntry
  chunkRefs : List ChunkReference
  hashes : CompatibilityHashes
deriving DecidableEq

structure CompatRepoMetadata where
  repositoryId : String
  formatVersion : Nat
  duplicatiSemanticVersion : String
  createdAt : DateTime
deriving DecidableEq

def compatFormatVersion : Nat :=
  1

def duplicatiSemanticVersion : String :=
  "2.0-compatible"

inductive CompatRepoError
  | notFound (text : String)
  | io (text : String)
  | serialize (text : String)
  | failed (text : String)
deriving DecidableEq

/-- JSON for the metadata and the manifests. -/
structure CompatJson where
  metadataToVec : CompatRepoMetadata → Bytes
  metadataFromSlice : Bytes → Except String CompatRepoMetadata
  manifestToVec : CompatibilityManifest → Bytes
  manifestFromSlice : Bytes → Except String CompatibilityManifest

/-- What is in a directory for chunks. -/
inductive DblockEntry
  | file (data : Bytes)
  | directory
deriving DecidableEq

/-- The directories, without those that no modelled function reads. -/
structure CompatibleRepository where
  metadata : Option Bytes
  dlists : HashMap String Bytes
  staging : HashMap String Bytes
  dblocks : HashMap String (HashMap String DblockEntry)

namespace CompatibleRepository

def bucketOf (hash : ChunkHash) : String :=
  Hex.encode (hash.digest.toList.take 1)

def dblockName (hash : ChunkHash) : String :=
  hash.toHex ++ ".dblock"

def dlistName (versionId : String) : String :=
  versionId ++ ".dlist"

/-- The metadata of a new repository. -/
def newMetadata (repositoryId : String) (now : DateTime) : CompatRepoMetadata where
  repositoryId := repositoryId
  formatVersion := compatFormatVersion
  duplicatiSemanticVersion := duplicatiSemanticVersion
  createdAt := now

/-- An empty directory for every byte. -/
def emptyBuckets : HashMap String (HashMap String DblockEntry) :=
  HashMap.collect ((List.range 256).map fun i => (Hex.encode [UInt8.ofNat i], ∅))

/-- A new repository: the metadata and the empty directories. -/
def init (json : CompatJson) (repositoryId : String) (now : DateTime) :
    CompatibleRepository where
  metadata := some (json.metadataToVec (newMetadata repositoryId now))
  dlists := ∅
  staging := ∅
  dblocks := emptyBuckets

/-- What has a name in a directory for chunks. -/
def dblock (repo : CompatibleRepository) (bucket name : String) :
    Option DblockEntry :=
  (repo.dblocks.lookup bucket).bind fun entries => entries.lookup name

/-- What is at the path of a chunk. -/
def chunkEntry (repo : CompatibleRepository) (hash : ChunkHash) : Option DblockEntry :=
  repo.dblock (bucketOf hash) (dblockName hash)

/-- Put something into a directory for chunks, which is made if there is none. -/
def putEntry (bucket name : String) (entry : DblockEntry)
    (repo : CompatibleRepository) : CompatibleRepository :=
  let entries := (repo.dblocks.lookup bucket).getD ∅
  { repo with dblocks := repo.dblocks.insert bucket (entries.insert name entry) }

def writeCompatChunk (hash : ChunkHash) (data : Bytes)
    (repo : CompatibleRepository) : CompatChunkLocation × CompatibleRepository :=
  let location := { bucket := bucketOf hash, path := dblockName hash }
  if (repo.chunkEntry hash).isSome then (location, repo)
  else (location, repo.putEntry (bucketOf hash) (dblockName hash) (.file data))

/-- Write the manifest to the staging area and move it to its place. -/
def writeCompatManifest (json : CompatJson) (versionId : String)
    (manifest : CompatibilityManifest) (repo : CompatibleRepository) :
    CompatibleRepository :=
  let data := json.manifestToVec manifest
  let staged := { repo with staging := repo.staging.insert (dlistName versionId) data }
  { staged with
    staging := staged.staging.erase (dlistName versionId)
    dlists := staged.dlists.insert (dlistName versionId) data }

end CompatibleRepository

namespace CompatibilityRepoAdapter

def backupTypeToString : BackupType → String
  | .full => "full"
  | .incremental => "incremental"

def fileEntryToCompat (fe : FileEntry) : CompatFileEntry where
  path := fe.path
  size := fe.size
  modifiedAt := fe.modifiedAt
  chunks := fe.chunks
  fileHash := fe.fileHash

def manifestToCompat (manifest : Manifest) : CompatibilityManifest where
  versionId := uuidText manifest.versionId.uuid
  timestamp := manifest.timestamp
  parentVersionId := manifest.parentVersionId.map fun v => uuidText v.uuid
  versionNumber := manifest.versionNumber
  backupType := backupTypeToString manifest.backupType
  files := manifest.files.map fileEntryToCompat
  chunkRefs := manifest.chunkRefs
  hashes := {
    manifestHash := manifest.hashes.manifestHash
    fileIndexHash := manifest.hashes.fileIndexHash
    chunkIndexHash := manifest.hashes.chunkIndexHash }

/-- A chunk is written as its JSON text. -/
def writeChunk (hash : ChunkHash) (encrypted : EncryptedChunk)
    (repo : CompatibleRepository) : ChunkLocation × CompatibleRepository :=
  let written := repo.writeCompatChunk hash (Json.encryptedChunkBytes encrypted)
  ({ bucket := written.1.bucket, path := written.1.path }, written.2)

def writeManifest (json : CompatJson) (versionId : VersionId)
    (manifest : Manifest) (repo : CompatibleRepository) : CompatibleRepository :=
  repo.writeCompatManifest json (uuidText versionId.uuid) (manifestToCompat manifest)

end CompatibilityRepoAdapter

namespace CompatibleRepository

section Specs

variable {json : CompatJson}

theorem dblockName_injective : Function.Injective dblockName := by
  intro h h' heq
  exact ChunkHash.toHex_injective ((String.append_left_inj _).mp heq)

theorem dlistName_injective : Function.Injective dlistName := by
  intro v v' heq
  exact (String.append_left_inj _).mp heq

theorem eq_empty_of_lookup_emptyBuckets {bucket : String}
    {entries : HashMap String DblockEntry}
    (h : emptyBuckets.lookup bucket = some entries) : entries = ∅ := by
  unfold emptyBuckets at h
  have hmem := HashMap.mem_of_lookup_collect h
  generalize List.range 256 = bytes at hmem
  obtain ⟨i, -, heq⟩ := List.mem_map.mp hmem
  exact (congrArg Prod.snd heq).symm

theorem dblock_init (repositoryId : String) (now : DateTime) (bucket name : String) :
    (init json repositoryId now).dblock bucket name = none := by
  rw [dblock, Option.bind_eq_none_iff]
  intro entries hentries
  simp only [init] at hentries
  rw [eq_empty_of_lookup_emptyBuckets hentries]
  rfl

theorem dblock_putEntry (repo : CompatibleRepository) (bucket name : String)
    (entry : DblockEntry) (bucket' name' : String) :
    (repo.putEntry bucket name entry).dblock bucket' name' =
      if bucket' = bucket ∧ name' = name then some entry
      else repo.dblock bucket' name' := by
  simp only [putEntry, dblock, HashMap.lookup_insert_of]
  by_cases hbucket : bucket' = bucket
  · subst hbucket
    by_cases hname : name' = name
    · subst hname
      simp
    · cases repo.dblocks.lookup bucket' with
      | none =>
          simpa [hname] using HashMap.lookup_insert_of ∅ name name' entry
      | some entries =>
          simp [hname]
  · simp [hbucket]

/-- A chunk is written where its path is free; everything else stays. -/
theorem dblock_writeCompatChunk (repo : CompatibleRepository) (hash : ChunkHash)
    (data : Bytes) (bucket name : String) :
    (repo.writeCompatChunk hash data).2.dblock bucket name =
      if bucket = bucketOf hash ∧ name = dblockName hash then
        (repo.chunkEntry hash).or (some (.file data))
      else repo.dblock bucket name := by
  unfold writeCompatChunk
  by_cases hsome : (repo.chunkEntry hash).isSome
  · rw [if_pos hsome]
    split
    · next hsame =>
        obtain ⟨rfl, rfl⟩ := hsame
        obtain ⟨old, hold⟩ := Option.isSome_iff_exists.mp hsome
        rw [hold]
        exact hold
    · rfl
  · have hnone : repo.chunkEntry hash = none := Option.not_isSome_iff_eq_none.mp hsome
    rw [if_neg hsome, hnone, Option.none_or]
    exact dblock_putEntry repo _ _ _ _ _

-- Writing a chunk changes no manifest and not the metadata.
theorem dlists_writeCompatChunk (repo : CompatibleRepository) (hash : ChunkHash)
    (data : Bytes) : (repo.writeCompatChunk hash data).2.dlists = repo.dlists := by
  unfold writeCompatChunk
  split
  · rfl
  · rfl

theorem metadata_writeCompatChunk (repo : CompatibleRepository) (hash : ChunkHash)
    (data : Bytes) : (repo.writeCompatChunk hash data).2.metadata = repo.metadata := by
  unfold writeCompatChunk
  split
  · rfl
  · rfl

theorem lookup_dlists_writeCompatManifest (json : CompatJson)
    (repo : CompatibleRepository) (versionId : String)
    (manifest : CompatibilityManifest) (name : String) :
    (repo.writeCompatManifest json versionId manifest).dlists.lookup name =
      if name = dlistName versionId then some (json.manifestToVec manifest)
      else repo.dlists.lookup name :=
  HashMap.lookup_insert_of _ _ _ _

-- Writing a manifest changes no chunk.
theorem dblock_writeCompatManifest (json : CompatJson) (repo : CompatibleRepository)
    (versionId : String) (manifest : CompatibilityManifest) (bucket name : String) :
    (repo.writeCompatManifest json versionId manifest).dblock bucket name =
      repo.dblock bucket name :=
  rfl

end Specs

end CompatibleRepository

end Compat
end HyperBackup
