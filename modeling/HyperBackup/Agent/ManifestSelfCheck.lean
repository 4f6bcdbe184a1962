import HyperBackup.Agent.Verify

/-!
# The hashes that a manifest has of itself

The engine hashes a manifest before its own hash and the hash of the repository
are filled in, and the verifier leaves both out again.  The two agree on what
is covered: a manifest that was built and stored passes, and one that differs
from it in anything but its hashes does not.
-/

namespace HyperBackup
namespace Agent
namespace IntegrityVerifier

open Lib

section SelfCheck

variable {engine : BackupEngine} {m m' : Manifest}

/-- The manifest as it is hashed. -/
def blanked (m : Manifest) : Manifest :=
  { m with
    hashes := { m.hashes with
      manifestHash := zeroDigest
      repoHash := zeroDigest } }

/-- With the same hashes, what is blanked out is the same. -/
theorem eq_of_blanked_eq (hhashes : m'.hashes = m.hashes)
    (h : blanked m' = blanked m) : m' = m := by
  cases m
  cases m'
  simp only [blanked, Manifest.mk.injEq] at h hhashes ⊢
  obtain ⟨hid, htime, hparent, hnumber, htype, hfiles, hrefs, -, hlocations⟩ := h
  exact ⟨hid, htime, hparent, hnumber, htype, hfiles, hrefs, hhashes, hlocations⟩

theorem verifyManifestHash_iff (platform : Platform) (m : Manifest) :
    verifyManifestHash platform m = true ↔
      platform.sha256 (platform.json.toVec (blanked m)) = m.hashes.manifestHash :=
  decide_eq_true_iff

/-- What the engine builds passes both checks. -/
theorem verify_buildManifest
    (run : Execution) (parentVersionId : Option VersionId) (versionNumber : Nat)
    (backupType : BackupType) (files : List FileEntry)
    (chunkRefs : List ChunkReference)
    (chunkLocations : HashMap String ChunkLocation) :
    verifyManifestHash engine.toPlatform (engine.buildManifest run parentVersionId
        versionNumber backupType files chunkRefs chunkLocations) = true ∧
      verifyRepoHash engine.toPlatform (engine.buildManifest run parentVersionId
        versionNumber backupType files chunkRefs chunkLocations) = true :=
  ⟨decide_eq_true rfl, decide_eq_true rfl⟩

/-- A manifest with the hashes of one that passes, but different from it, does
not pass, unless the two texts or their hashes are the same. -/
theorem not_verifyManifestHash_of_ne {platform : Platform}
    (hpass : verifyManifestHash platform m = true)
    (hhashes : m'.hashes = m.hashes) (hne : m' ≠ m)
    (hencoding : platform.json.toVec (blanked m') = platform.json.toVec (blanked m) →
      blanked m' = blanked m)
    (hcollision : platform.sha256 (platform.json.toVec (blanked m')) =
        platform.sha256 (platform.json.toVec (blanked m)) →
      platform.json.toVec (blanked m') = platform.json.toVec (blanked m)) :
    verifyManifestHash platform m' = false := by
  refine Bool.eq_false_iff.mpr fun hpass' => hne ?_
  rw [verifyManifestHash_iff] at hpass hpass'
  have hsame : platform.sha256 (platform.json.toVec (blanked m')) =
      platform.sha256 (platform.json.toVec (blanked m)) := by
    rw [hpass, hpass', hhashes]
  exact eq_of_blanked_eq hhashes (hencoding (hcollision hsame))

/-- A built manifest passes its checks after it was written and read, and no
other manifest with its hashes does. -/
theorem selfCheck_buildManifest
    (engine : BackupEngine) (stored : Files)
    (run : Execution) (parentVersionId : Option VersionId) (versionNumber : Nat)
    (backupType : BackupType) (files : List FileEntry)
    (chunkRefs : List ChunkReference)
    (chunkLocations : HashMap String ChunkLocation) (m : Manifest)
    (hbuilt : m = engine.buildManifest run parentVersionId versionNumber backupType
      files chunkRefs chunkLocations)
    (hjson : engine.json.fromSlice (engine.json.toVec m) = .ok m) :
    (∃ read, LocalRepository.readManifest engine.root engine.json
        (LocalRepository.writeManifest engine.root engine.json m.versionId m stored)
        m.versionId = .ok read ∧
      verifyManifestHash engine.toPlatform read = true ∧
      verifyRepoHash engine.toPlatform read = true) ∧
    ∀ m', m'.hashes = m.hashes →
      (m'.versionId ≠ m.versionId ∨ m'.timestamp ≠ m.timestamp ∨
        m'.parentVersionId ≠ m.parentVersionId ∨
        m'.versionNumber ≠ m.versionNumber ∨ m'.backupType ≠ m.backupType ∨
        m'.files ≠ m.files ∨ m'.chunkRefs ≠ m.chunkRefs ∨
        m'.chunkLocations ≠ m.chunkLocations) →
      (engine.json.toVec (blanked m') = engine.json.toVec (blanked m) →
        blanked m' = blanked m) →
      (engine.sha256 (engine.json.toVec (blanked m')) =
          engine.sha256 (engine.json.toVec (blanked m)) →
        engine.json.toVec (blanked m') = engine.json.toVec (blanked m)) →
      verifyManifestHash engine.toPlatform m' = false := by
  subst hbuilt
  have hpass := @verify_buildManifest engine run parentVersionId versionNumber
    backupType files chunkRefs chunkLocations
  refine ⟨⟨_, LocalRepository.readManifest_eq_ok
    LocalRepository.lookup_writeManifest_self hjson, hpass⟩, ?_⟩
  intro m' hhashes hdiffers hencoding hcollision
  refine not_verifyManifestHash_of_ne hpass.1 hhashes ?_ hencoding hcollision
  rintro rfl
  simp at hdiffers

end SelfCheck

section Example

open BackupEngine

/-- The SHA-256 hash of `abc`. -/
def abcDigest : HashDigest :=
  ⟨[
    0xba, 0x78, 0x16, 0xbf, 0x8f, 0x01, 0xcf, 0xea,
    0x41, 0x41, 0x40, 0xde, 0x5d, 0xae, 0x22, 0x23,
    0xb0, 0x03, 0x61, 0xa3, 0x96, 0x17, 0x7a, 0x9c,
    0xb4, 0x10, 0xff, 0x61, 0xf2, 0x00, 0x15, 0xad], rfl⟩

/-- The entry of a file `/data/a` with the content `abc`. -/
def abcFile : FileEntry :=
  { exampleFile "/data/a" 3 with
    chunks := [abcHash]
    fileHash := abcDigest }

def abcReference : ChunkReference where
  hash := abcHash
  versionId := ⟨exampleUuid 3⟩
  filePath := "/data/a"
  offset := 0

def abcLocations : HashMap String ChunkLocation :=
  AList.insert abcHash.toHex (chunkLocation abcHash) ∅

/-- A version with that file as it is hashed. -/
def hashedVersion (files chunks : HashDigest) (n : Nat) : Manifest where
  versionId := ⟨exampleUuid n⟩
  timestamp := exampleTime
  parentVersionId := none
  versionNumber := 1
  backupType := .full
  files := [abcFile]
  chunkRefs := [abcReference]
  hashes := {
    manifestHash := zeroDigest
    fileIndexHash := files
    chunkIndexHash := chunks
    repoHash := zeroDigest }
  chunkLocations := abcLocations

/-- The version with its own hash and the hash of the repository filled in. -/
def filledVersion (files chunks hash repo : HashDigest) (n : Nat) : Manifest :=
  { hashedVersion files chunks n with
    hashes := {
      manifestHash := hash
      fileIndexHash := files
      chunkIndexHash := chunks
      repoHash := repo } }

theorem blanked_filledVersion (files chunks hash repo : HashDigest) (n : Nat) :
    blanked (filledVersion files chunks hash repo n) =
      hashedVersion files chunks n :=
  rfl

/-- What the engine builds when the hashes of the parts are known. -/
theorem buildManifest_eq {engine : BackupEngine}
    {files chunks hash repo : HashDigest} (n : Nat)
    (hfiles : engine.sha256 abcDigest.toList = files)
    (hchunks : engine.sha256 abcHash.digest.toList = chunks)
    (hhash : engine.sha256 (engine.json.toVec (hashedVersion files chunks n)) =
      hash)
    (hrepo : engine.sha256 (hash.toList ++ files.toList ++ chunks.toList) =
      repo) :
    engine.buildManifest (exampleExecution n) none 1 .full [abcFile]
        [abcReference] abcLocations =
      filledVersion files chunks hash repo n := by
  have hfile : [abcFile].flatMap (fun file => file.fileHash.toList) =
      abcDigest.toList :=
    List.flatMap_singleton _ _
  have href : [abcReference].flatMap (fun cr => cr.hash.digest.toList) =
      abcHash.digest.toList :=
    List.flatMap_singleton _ _
  subst hfiles hchunks hhash hrepo
  simp only [buildManifest, hfile, href]
  rfl

/-- The hash of the file index and that of the chunk index. -/
def filesHash : HashDigest :=
  Sha256.hash abcDigest.toList

def chunksHash : HashDigest :=
  Sha256.hash abcHash.digest.toList

/-- The SHA-256 hash of the text of the version 3. -/
def hashOfThree : HashDigest :=
  ⟨[
    0x49, 0x91, 0x08, 0x57, 0xf0, 0x96, 0xe0, 0xd2,
    0x9d, 0x9a, 0x6e, 0x64, 0xca, 0x5a, 0x07, 0x4b,
    0xb3, 0xf9, 0xb3, 0x6b, 0x7a, 0xcb, 0x7f, 0x94,
    0xa8, 0x48, 0xe7, 0x93, 0xf5, 0xa0, 0xaa, 0x84], rfl⟩

/-- The SHA-256 hash of the text of the version 4. -/
def hashOfFour : HashDigest :=
  ⟨[
    0xcb, 0xae, 0x30, 0x94, 0x61, 0xe9, 0xfa, 0x09,
    0xea, 0x10, 0xd8, 0x0d, 0x1c, 0xd2, 0x21, 0x4c,
    0x8c, 0xed, 0x93, 0x7f, 0x4a, 0x54, 0x8d, 0x2b,
    0x2c, 0xd3, 0x65, 0x1b, 0x07, 0xde, 0x1e, 0xd7], rfl⟩

/-- SHA-256, with the hashes of two texts looked up. -/
def lookupSha256 (three four data : Bytes) : HashDigest :=
  if data = three then hashOfThree
  else if data = four then hashOfFour
  else Sha256.hash data

theorem lookupSha256_three (three four : Bytes) :
    lookupSha256 three four three = hashOfThree :=
  if_pos rfl

theorem lookupSha256_four {three four : Bytes} (hne : four ≠ three) :
    lookupSha256 three four four = hashOfFour := by
  rw [lookupSha256, if_neg hne, if_pos rfl]

theorem lookupSha256_of_ne {three four data : Bytes}
    (hthree : data ≠ three) (hfour : data ≠ four) :
    lookupSha256 three four data = Sha256.hash data := by
  rw [lookupSha256, if_neg hthree, if_neg hfour]

/-- SHA-256 with the hashes of the versions 3 and 4 looked up. -/
def knownSha256 : Bytes → HashDigest :=
  lookupSha256 (Json.manifestBytes (hashedVersion filesHash chunksHash 3))
    (Json.manifestBytes (hashedVersion filesHash chunksHash 4))

theorem knownSha256_of_head?_ne {data : Bytes} (h : data.head? ≠ some 0x7b) :
    knownSha256 data = Sha256.hash data := by
  have hother : ∀ m, data ≠ Json.manifestBytes m := fun m heq =>
    h ((congrArg List.head? heq).trans (Json.head?_manifestBytes m))
  exact lookupSha256_of_ne (hother _) (hother _)

/-- The text of a manifest names its version. -/
theorem manifestBytes_hashedVersion_ne (files chunks : HashDigest) :
    Json.manifestBytes (hashedVersion files chunks 4) ≠
      Json.manifestBytes (hashedVersion files chunks 3) := by
  intro heq
  have hid : (⟨exampleUuid 4⟩ : VersionId) = ⟨exampleUuid 3⟩ :=
    Json.versionId_eq_of_manifestBytes_eq heq
  exact absurd hid (by decide)

def selfCheckEngine (sha256 : Bytes → HashDigest) (m : Manifest) : BackupEngine :=
  exampleEngine
    { root := "/repo"
      json := exampleJson m
      blake3 := fun _ => .ofEmpty
      sha256 := sha256
      compress := .ok
      decompress := .ok
      encryptChunk := fun _ _ => .error .keyUnavailable
      decryptChunk := fun encrypted => .ok encrypted.ciphertext }

theorem sha256_selfCheckEngine (sha256 : Bytes → HashDigest) (m : Manifest) :
    (selfCheckEngine sha256 m).sha256 = sha256 := by
  simp only [selfCheckEngine, exampleEngine]

theorem toVec_selfCheckEngine (sha256 : Bytes → HashDigest) (m : Manifest) :
    (selfCheckEngine sha256 m).json.toVec = Json.manifestBytes := by
  simp only [selfCheckEngine, exampleEngine, exampleJson]

/-- The hash of the repository at the version 3. -/
def repoOfThree : HashDigest :=
  Sha256.hash (hashOfThree.toList ++ filesHash.toList ++ chunksHash.toList)

/-- The version 3 with its hashes. -/
def builtVersion : Manifest :=
  filledVersion filesHash chunksHash hashOfThree repoOfThree 3

/-- The same with the identifier of the version 4. -/
def alteredVersion : Manifest :=
  filledVersion filesHash chunksHash hashOfThree repoOfThree 4

def builtEngine : BackupEngine :=
  selfCheckEngine knownSha256 builtVersion

theorem builtVersion_eq :
    builtVersion =
      builtEngine.buildManifest (exampleExecution 3) none 1 .full [abcFile]
        [abcReference] abcLocations := by
  have hsha : builtEngine.sha256 = knownSha256 := sha256_selfCheckEngine _ _
  have hfiles : builtEngine.sha256 abcDigest.toList = filesHash := by
    rw [hsha, filesHash]
    exact knownSha256_of_head?_ne (by decide)
  have hchunks : builtEngine.sha256 abcHash.digest.toList = chunksHash := by
    rw [hsha, chunksHash]
    exact knownSha256_of_head?_ne (by decide)
  have hhash : builtEngine.sha256 (builtEngine.json.toVec
      (hashedVersion filesHash chunksHash 3)) = hashOfThree := by
    rw [hsha, builtEngine, toVec_selfCheckEngine, knownSha256,
      lookupSha256_three]
  have hrepo : builtEngine.sha256 (hashOfThree.toList ++ filesHash.toList ++
      chunksHash.toList) = repoOfThree := by
    rw [hsha, repoOfThree]
    exact knownSha256_of_head?_ne (by simp [hashOfThree])
  rw [buildManifest_eq 3 hfiles hchunks hhash hrepo, builtVersion]

/-- The version 3 passes its checks; with the identifier of the version 4 it does
not. -/
theorem selfCheck_builtVersion :
    (∃ read, LocalRepository.readManifest builtEngine.root builtEngine.json
        (LocalRepository.writeManifest builtEngine.root builtEngine.json
          builtVersion.versionId builtVersion ∅) builtVersion.versionId = .ok read ∧
      verifyManifestHash builtEngine.toPlatform read = true ∧
      verifyRepoHash builtEngine.toPlatform read = true) ∧
    verifyManifestHash builtEngine.toPlatform alteredVersion = false := by
  have hjson : builtEngine.json.fromSlice
      (builtEngine.json.toVec builtVersion) = .ok builtVersion := by
    simp [builtEngine, selfCheckEngine, exampleEngine, exampleJson]
  obtain ⟨hread, haltered⟩ := selfCheck_buildManifest builtEngine ∅
    (exampleExecution 3) none 1 .full [abcFile] [abcReference] abcLocations
    builtVersion builtVersion_eq hjson
  have hid : alteredVersion.versionId ≠ builtVersion.versionId := by
    simp only [alteredVersion, builtVersion, filledVersion, hashedVersion]
    decide
  have hhashes : alteredVersion.hashes = builtVersion.hashes := by
    simp only [alteredVersion, builtVersion, filledVersion]
  have hne := manifestBytes_hashedVersion_ne filesHash chunksHash
  refine ⟨hread, haltered alteredVersion hhashes (Or.inl hid) ?_ ?_⟩
  · rw [builtEngine, toVec_selfCheckEngine, builtVersion, alteredVersion,
      blanked_filledVersion, blanked_filledVersion]
    intro heq
    exact absurd heq hne
  · rw [builtEngine, sha256_selfCheckEngine, toVec_selfCheckEngine, builtVersion,
      alteredVersion, blanked_filledVersion, blanked_filledVersion, knownSha256,
      lookupSha256_three, lookupSha256_four hne]
    intro heq
    have hdiffers : hashOfFour ≠ hashOfThree := by
      decide
    exact absurd heq hdiffers

end Example

end IntegrityVerifier
end Agent
end HyperBackup
