import HyperBackup.Agent.Domain
import HyperBackup.Lib.Path
import HyperBackup.Lib.Program

/-!
# The local repository of the agent

A repository is a directory: every chunk lies in a file named after its hash,
every version has a manifest.  The files of the machine are one map from
paths to bytes.  Only files that are not there can make an operation fail;
JSON is a parameter.
-/

namespace HyperBackup
namespace Agent

open Lib Lib.Program

/-- The files of the machine. -/
abbrev Files : Type :=
  HashMap String Bytes

namespace Files

def write (files : Files) (path : String) (data : Bytes) : Files :=
  files.insert path data

def remove (files : Files) (path : String) : Files :=
  files.erase path

@[simp] theorem lookup_write (files : Files) (path p : String) (data : Bytes) :
    (write files path data).lookup p =
      if p = path then some data else files.lookup p :=
  HashMap.lookup_insert_of _ _ _ _

@[simp] theorem lookup_remove (files : Files) (path p : String) :
    (remove files path).lookup p =
      if p = path then none else files.lookup p :=
  HashMap.lookup_erase_of _ _ _

end Files

inductive RepoError
  | authFailed
  | full
  | lockTimeout
  | notFound (text : String)
  | io (text : String)
  | serialize (text : String)
  | failed (text : String)
deriving DecidableEq

def RepoError.message : RepoError → String
  | .authFailed => "repository auth failed"
  | .full => "repository full"
  | .lockTimeout => "lock timeout"
  | .notFound text => "not found: " ++ text
  | .io text => "io error: " ++ text
  | .serialize text => "serialization error: " ++ text
  | .failed text => "failed: " ++ text

/-- JSON for manifests. -/
structure ManifestJson where
  toVec : Manifest → Bytes
  fromSlice : Bytes → Except String Manifest

def bucketName (hash : ChunkHash) : String :=
  Hex.encode (hash.digest.toList.take 1)

def chunkFilename (hash : ChunkHash) : String :=
  hash.toHex ++ ".chunk"

def manifestFilename (versionId : VersionId) : String :=
  uuidText versionId.uuid ++ ".manifest"

def chunkLocation (hash : ChunkHash) : ChunkLocation :=
  { bucket := bucketName hash, path := chunkFilename hash }

/-- The nonce, the tag and the ciphertext, one after the other. -/
def encodeEncryptedChunk (encrypted : EncryptedChunk) : Bytes :=
  encrypted.nonce.toList ++ encrypted.authTag.toList ++ encrypted.ciphertext

def decodeEncryptedChunk (data : Bytes) : Except String EncryptedChunk :=
  if h : data.length < 12 + 16 then .error "chunk data too short"
  else .ok {
    nonce := ⟨data.take 12, by simp at h ⊢; omega⟩
    authTag := ⟨(data.drop 12).take 16, by simp at h ⊢; omega⟩
    ciphertext := data.drop 28 }

/-- What was encoded is read back. -/
theorem decodeEncryptedChunk_encode (e : EncryptedChunk) :
    decodeEncryptedChunk (encodeEncryptedChunk e) = .ok e := by
  have hnonce : e.nonce.toList.length = 12 := e.nonce.toList_length
  have htag : e.authTag.toList.length = 16 := e.authTag.toList_length
  have hlen : ¬ (encodeEncryptedChunk e).length < 12 + 16 := by
    simp only [encodeEncryptedChunk, List.length_append, hnonce, htag]
    omega
  have hsplit : encodeEncryptedChunk e =
      e.nonce.toList ++ (e.authTag.toList ++ e.ciphertext) := by
    simp [encodeEncryptedChunk]
  have hnonce' : (encodeEncryptedChunk e).take 12 = e.nonce.toList := by
    rw [hsplit, List.take_left' hnonce]
  have hrest : (encodeEncryptedChunk e).drop 12 =
      e.authTag.toList ++ e.ciphertext := by
    rw [hsplit, List.drop_left' hnonce]
  have htag' : ((encodeEncryptedChunk e).drop 12).take 16 =
      e.authTag.toList := by
    rw [hrest, List.take_left' htag]
  have hciphertext : (encodeEncryptedChunk e).drop 28 = e.ciphertext := by
    rw [show 28 = 12 + 16 from rfl, ← List.drop_drop, hrest,
      List.drop_left' htag]
  unfold decodeEncryptedChunk
  rw [dif_neg hlen]
  congr 1
  cases e with
  | mk ciphertext nonce authTag =>
      congr 1
      · exact Subtype.ext hnonce'
      · exact Subtype.ext htag'

namespace LocalRepository

section Operations

variable (root : String)

def locationPath (location : ChunkLocation) : String :=
  Path.join (Path.join (Path.join root "chunks") location.bucket) location.path

def chunkPath (hash : ChunkHash) : String :=
  locationPath root (chunkLocation hash)

def manifestPath (versionId : VersionId) : String :=
  Path.join (Path.join root "manifests") (manifestFilename versionId)

def stagingPath (versionId : VersionId) : String :=
  Path.join (Path.join (Path.join root "manifests") ".staging")
    (manifestFilename versionId)

/-- What the operating system says about a file that is not there. -/
def noSuchFile : String :=
  "No such file or directory (os error 2)"

def readFile (files : Files) (path : String) : Except RepoError Bytes :=
  match files.lookup path with
  | none => .error (.io noSuchFile)
  | some data => .ok data

/-- Write the chunk file; the location says where it is. -/
def writeChunk (hash : ChunkHash) (encrypted : EncryptedChunk)
    (files : Files) : ChunkLocation × Files :=
  (chunkLocation hash,
    Files.write files (chunkPath root hash) (encodeEncryptedChunk encrypted))

def readChunk (files : Files) (location : ChunkLocation) :
    Except RepoError EncryptedChunk := do
  let data ← readFile files (locationPath root location)
  (decodeEncryptedChunk data).mapError .io

def chunkExists (files : Files) (hash : ChunkHash) : Bool :=
  (files.lookup (chunkPath root hash)).isSome

def findChunk (files : Files) (hash : ChunkHash) :
    Except RepoError ChunkLocation :=
  if chunkExists root files hash then .ok (chunkLocation hash)
  else .error (.failed "chunk not found")

def deleteChunk (location : ChunkLocation) (files : Files) : Files :=
  Files.remove files (locationPath root location)

/-- Write the manifest to the staging area and move it to its place. -/
def writeManifest (json : ManifestJson) (versionId : VersionId)
    (manifest : Manifest) (files : Files) : Files :=
  let staged := Files.write files (stagingPath root versionId)
    (json.toVec manifest)
  Files.write (Files.remove staged (stagingPath root versionId))
    (manifestPath root versionId) (json.toVec manifest)

def readManifest (json : ManifestJson) (files : Files)
    (versionId : VersionId) : Except RepoError Manifest := do
  let data ← readFile files (manifestPath root versionId)
  (json.fromSlice data).mapError .serialize

end Operations

section Specs

variable {root : String} {files : Files}

theorem chunkPath_injective : Function.Injective (chunkPath root) := by
  intro h h' heq
  have hlen : (chunkFilename h).toList.length =
      (chunkFilename h').toList.length := by
    simp [chunkFilename, ChunkHash.length_toHex]
  have hname := Path.join_right_injective hlen heq
  exact ChunkHash.toHex_injective ((String.append_left_inj _).mp hname)

theorem manifestPath_injective : Function.Injective (manifestPath root) := by
  intro v v' heq
  have hlen : (manifestFilename v).toList.length =
      (manifestFilename v').toList.length := by
    simp [manifestFilename, length_uuidText]
  have hname := Path.join_right_injective hlen heq
  have huuid : v.uuid = v'.uuid :=
    uuidText_injective ((String.append_left_inj _).mp hname)
  cases v
  cases v'
  exact congrArg VersionId.mk huuid

theorem exists_chunkPath_eq_append (root : String) (h : ChunkHash) :
    ∃ r, chunkPath root h = r ++ ".chunk" := by
  obtain ⟨r, hr⟩ := Path.exists_join_eq_append
    (Path.join (Path.join root "chunks") (bucketName h)) (chunkFilename h)
  refine ⟨r ++ h.toHex, ?_⟩
  rw [String.append_assoc]
  exact hr

/-- A manifest is read iff its file is there and can be decoded. -/
theorem readManifest_eq_ok_iff
    {json : ManifestJson} {v : VersionId} {m : Manifest} :
    readManifest root json files v = .ok m ↔
      ∃ data, files.lookup (manifestPath root v) = some data ∧
        json.fromSlice data = .ok m := by
  unfold readManifest readFile
  cases files.lookup (manifestPath root v) with
  | none =>
      simp [bind, Except.bind]
  | some data =>
      cases hjson : json.fromSlice data with
      | error e =>
          simp [bind, Except.bind, Except.mapError, hjson]
      | ok m' =>
          simp [bind, Except.bind, Except.mapError, hjson]

theorem readManifest_eq_ok
    {json : ManifestJson} {v : VersionId} {m : Manifest} {data : Bytes}
    (hdata : files.lookup (manifestPath root v) = some data)
    (hjson : json.fromSlice data = .ok m) :
    readManifest root json files v = .ok m :=
  readManifest_eq_ok_iff.mpr ⟨data, hdata, hjson⟩

theorem lookup_writeManifest_self
    {json : ManifestJson} {v : VersionId} {m : Manifest} :
    (writeManifest root json v m files).lookup (manifestPath root v) =
      some (json.toVec m) := by
  simp [writeManifest]

/-- A file named as a manifest never lies where a chunk lies. -/
theorem join_manifestFilename_ne_chunkPath
    (p : String) (v : VersionId) (h : ChunkHash) :
    Path.join p (manifestFilename v) ≠ chunkPath root h := by
  intro heq
  have hname : manifestFilename v = (uuidText v.uuid ++ ".ma") ++ "nifest" := by
    rw [String.append_assoc]
    rfl
  unfold chunkPath locationPath chunkLocation chunkFilename at heq
  rw [hname] at heq
  exact absurd (Path.join_right_suffix_injective (by decide) heq) (by decide)

theorem manifestPath_ne_chunkPath (v : VersionId) (h : ChunkHash) :
    manifestPath root v ≠ chunkPath root h :=
  join_manifestFilename_ne_chunkPath _ v h

theorem stagingPath_ne_chunkPath (v : VersionId) (h : ChunkHash) :
    stagingPath root v ≠ chunkPath root h :=
  join_manifestFilename_ne_chunkPath _ v h

/-- Writing a manifest changes nothing but its place and its staging place. -/
theorem lookup_writeManifest_of_ne
    {json : ManifestJson} {v : VersionId} {m : Manifest} {path : String}
    (hmanifest : path ≠ manifestPath root v)
    (hstaging : path ≠ stagingPath root v) :
    (writeManifest root json v m files).lookup path = files.lookup path := by
  simp [writeManifest, hmanifest, hstaging]

theorem chunkExists_writeManifest
    {json : ManifestJson} {v : VersionId} {m : Manifest} (h : ChunkHash) :
    chunkExists root (writeManifest root json v m files) h =
      chunkExists root files h := by
  rw [chunkExists, lookup_writeManifest_of_ne
    (manifestPath_ne_chunkPath v h).symm (stagingPath_ne_chunkPath v h).symm]
  rfl

theorem chunkLocation_injective : Function.Injective chunkLocation := by
  intro h h' heq
  have hname : chunkFilename h = chunkFilename h' :=
    congrArg ChunkLocation.path heq
  exact ChunkHash.toHex_injective ((String.append_left_inj _).mp hname)

/-- Writing a chunk adds that chunk. -/
theorem chunkExists_writeChunk (hash h : ChunkHash) (encrypted : EncryptedChunk) :
    chunkExists root (writeChunk root hash encrypted files).2 h =
      (decide (h = hash) || chunkExists root files h) := by
  by_cases heq : h = hash
  · subst heq
    simp [chunkExists, writeChunk]
  · have hpath : chunkPath root h ≠ chunkPath root hash :=
      fun hp => heq (chunkPath_injective hp)
    simp [chunkExists, writeChunk, hpath, heq]

/-- Deleting a chunk removes that chunk and no other. -/
theorem chunkExists_deleteChunk (hash h : ChunkHash) :
    chunkExists root (deleteChunk root (chunkLocation hash) files) h =
      (chunkExists root files h && decide (h ≠ hash)) := by
  by_cases heq : h = hash
  · subst heq
    simp [chunkExists, deleteChunk, chunkPath]
  · have hpath : chunkPath root h ≠ locationPath root (chunkLocation hash) :=
      fun hp => heq (chunkPath_injective hp)
    simp only [chunkExists, deleteChunk, Files.lookup_remove]
    rw [if_neg hpath]
    simp [heq]

/-- A file that is left after a deletion was there before. -/
theorem chunkExists_of_deleteChunk {location : ChunkLocation} {h : ChunkHash}
    (hexists : chunkExists root (deleteChunk root location files) h) :
    chunkExists root files h := by
  simp only [chunkExists, deleteChunk, Files.lookup_remove] at hexists
  split at hexists
  · cases hexists
  · exact hexists

theorem findChunk_eq_ok {hash : ChunkHash} {location : ChunkLocation}
    (hfound : findChunk root files hash = .ok location) :
    location = chunkLocation hash ∧ chunkExists root files hash := by
  unfold findChunk at hfound
  split at hfound
  · rename_i hexists
    cases hfound
    exact ⟨rfl, hexists⟩
  · cases hfound

/-- Chunks do not lie where manifests lie. -/
theorem readManifest_writeChunk (json : ManifestJson) (hash : ChunkHash)
    (encrypted : EncryptedChunk) (v : VersionId) :
    readManifest root json (writeChunk root hash encrypted files).2 v =
      readManifest root json files v := by
  simp [readManifest, readFile, writeChunk, manifestPath_ne_chunkPath v hash]

theorem readManifest_deleteChunk (json : ManifestJson) (hash : ChunkHash)
    (v : VersionId) :
    readManifest root json (deleteChunk root (chunkLocation hash) files) v =
      readManifest root json files v := by
  have hpath : manifestPath root v ≠ locationPath root (chunkLocation hash) :=
    manifestPath_ne_chunkPath v hash
  simp [readManifest, readFile, deleteChunk, hpath]

/-- What is read after a manifest was written is that manifest or was there
before. -/
theorem readManifest_writeManifest {json : ManifestJson} {v v' : VersionId}
    {m m' : Manifest}
    (hread : readManifest root json (writeManifest root json v m files) v' =
      .ok m') :
    json.fromSlice (json.toVec m) = .ok m' ∨
      readManifest root json files v' = .ok m' := by
  obtain ⟨data, hdata, hjson⟩ := readManifest_eq_ok_iff.mp hread
  simp only [writeManifest, Files.lookup_write, Files.lookup_remove] at hdata
  split at hdata
  · cases hdata
    exact Or.inl hjson
  · split at hdata
    · cases hdata
    · exact Or.inr (readManifest_eq_ok hdata hjson)

end Specs

end LocalRepository

end Agent
end HyperBackup
