import HyperBackup.Agent.ManifestSelfCheck
import HyperBackup.Compat.Json

/-!
# Manifests in a compatible repository

The engine's manifests are converted to those of the compatible repository and back.
The latter have no attributes of files, no hash of the repository and no locations of
chunks; a manifest that uses one of them is read back without it, and if it passed the
check of the hash of the repository, it fails that check from then on.  The parser of
identifiers is a parameter.
-/

namespace HyperBackup
namespace Compat

open Lib Agent

namespace CompatibleRepository

def readCompatManifest (json : CompatJson) (versionId : String)
    (repo : CompatibleRepository) : Except CompatRepoError CompatibilityManifest :=
  match repo.dlists.lookup (dlistName versionId) with
  | none => .error (.notFound ("manifest not found: " ++ versionId))
  | some data => (json.manifestFromSlice data).mapError .serialize

end CompatibleRepository

namespace CompatibilityRepoAdapter

section Operations

def compatErrToRepoErr : CompatRepoError → RepoError
  | .notFound s => .notFound s
  | .io e => .io e
  | .serialize e => .serialize e
  | .failed s => .failed s

def stringToBackupType (s : String) : BackupType :=
  if s = "incremental" then .incremental else .full

def compatToFileEntry (cfe : CompatFileEntry) : FileEntry where
  path := cfe.path
  size := cfe.size
  modifiedAt := cfe.modifiedAt
  attributes := {}
  chunks := cfe.chunks
  fileHash := cfe.fileHash

variable (parseUuid : String → Except String Uuid)

def parseVersionId (field text : String) : Except RepoError VersionId :=
  match parseUuid text with
  | .error e => .error (.failed ("invalid " ++ field ++ " UUID: " ++ e))
  | .ok u => .ok ⟨u⟩

def parseParentVersionId (parent : Option String) :
    Except RepoError (Option VersionId) :=
  match parent with
  | some s => (parseVersionId parseUuid "parent_version_id" s).map some
  | none => .ok none

def compatToManifest (cm : CompatibilityManifest) : Except RepoError Manifest := do
  let versionId ← parseVersionId parseUuid "version_id" cm.versionId
  let parentVersionId ← parseParentVersionId parseUuid cm.parentVersionId
  return {
    versionId := versionId
    timestamp := cm.timestamp
    parentVersionId := parentVersionId
    versionNumber := cm.versionNumber
    backupType := stringToBackupType cm.backupType
    files := cm.files.map compatToFileEntry
    chunkRefs := cm.chunkRefs
    hashes := {
      manifestHash := cm.hashes.manifestHash
      fileIndexHash := cm.hashes.fileIndexHash
      chunkIndexHash := cm.hashes.chunkIndexHash
      repoHash := zeroDigest }
    chunkLocations := ∅ }

def readManifest (json : CompatJson) (versionId : VersionId)
    (repo : CompatibleRepository) : Except RepoError Manifest := do
  let compatManifest ← (repo.readCompatManifest json
    (uuidText versionId.uuid)).mapError compatErrToRepoErr
  compatToManifest parseUuid compatManifest

end Operations

section Statement

/-- The manifest passes the verifier's checks of its hashes. -/
structure PassesHashChecks (platform : Platform) (m : Manifest) : Prop where
  manifestHash : IntegrityVerifier.verifyManifestHash platform m = true
  repoHash : IntegrityVerifier.verifyRepoHash platform m = true

/-- The manifest is read as it was written, and with hashes that pass as before. -/
def Survives (platform : Platform) (json : CompatJson)
    (parseUuid : String → Except String Uuid) (repo : CompatibleRepository)
    (v : VersionId) (m : Manifest) : Prop :=
  ∃ read, readManifest parseUuid json v (writeManifest json v m repo) = .ok read ∧
    read = m ∧ (PassesHashChecks platform m → PassesHashChecks platform read)

/-- The manifest has no more than what the compatible one has. -/
structure Plain (m : Manifest) : Prop where
  attributes : ∀ fe ∈ m.files, fe.attributes = {}
  repoHash : m.hashes.repoHash = zeroDigest
  chunkLocations : m.chunkLocations = ∅

end Statement

section RoundTrip

variable {json : CompatJson} {parseUuid : String → Except String Uuid}

/-- What is left of a manifest. -/
def flattened (m : Manifest) : Manifest :=
  { m with
    files := m.files.map fun fe => { fe with attributes := {} }
    hashes := { m.hashes with repoHash := zeroDigest }
    chunkLocations := ∅ }

theorem stringToBackupType_backupTypeToString (t : BackupType) :
    stringToBackupType (backupTypeToString t) = t := by
  cases t with
  | full => exact if_neg (by decide)
  | incremental => exact if_pos rfl

theorem parseVersionId_uuidText (hparse : ∀ u, parseUuid (uuidText u) = .ok u)
    (field : String) (v : VersionId) :
    parseVersionId parseUuid field (uuidText v.uuid) = .ok v := by
  rw [parseVersionId, hparse]

/-- The conversions one after the other. -/
theorem compatToManifest_manifestToCompat
    (hparse : ∀ u, parseUuid (uuidText u) = .ok u) (m : Manifest) :
    compatToManifest parseUuid (manifestToCompat m) = .ok (flattened m) := by
  have hfiles : (manifestToCompat m).files.map compatToFileEntry =
      m.files.map fun fe => { fe with attributes := {} } := by
    rw [manifestToCompat, List.map_map]
    rfl
  have hparent : parseParentVersionId parseUuid (manifestToCompat m).parentVersionId =
      .ok m.parentVersionId := by
    unfold manifestToCompat parseParentVersionId
    cases m.parentVersionId with
    | none => rfl
    | some v =>
        simp only [Option.map_some, parseVersionId_uuidText hparse]
        rfl
  have htype : stringToBackupType (manifestToCompat m).backupType = m.backupType :=
    stringToBackupType_backupTypeToString m.backupType
  have hid : parseVersionId parseUuid "version_id" (manifestToCompat m).versionId =
      .ok m.versionId :=
    parseVersionId_uuidText hparse _ _
  rw [compatToManifest, hid, hparent, hfiles, htype]
  rfl

/-- A manifest that was written is read without what the compatible one lacks. -/
theorem readManifest_writeManifest (hparse : ∀ u, parseUuid (uuidText u) = .ok u)
    {m : Manifest} (hjson : json.manifestFromSlice
      (json.manifestToVec (manifestToCompat m)) = .ok (manifestToCompat m))
    (repo : CompatibleRepository) (v : VersionId) :
    readManifest parseUuid json v (writeManifest json v m repo) =
      .ok (flattened m) := by
  have hread : (writeManifest json v m repo).readCompatManifest json
      (uuidText v.uuid) = .ok (manifestToCompat m) := by
    rw [CompatibleRepository.readCompatManifest, writeManifest,
      CompatibleRepository.lookup_dlists_writeCompatManifest, if_pos rfl]
    simp only [hjson]
    rfl
  rw [readManifest, hread]
  exact compatToManifest_manifestToCompat hparse m

theorem flattened_eq_self_iff {m : Manifest} : flattened m = m ↔ Plain m := by
  constructor
  · intro h
    refine ⟨?_, ?_, ?_⟩
    · intro fe hfe
      rw [← h] at hfe
      obtain ⟨fe', -, rfl⟩ := List.mem_map.mp hfe
      rfl
    · rw [← h]
      rfl
    · rw [← h]
      rfl
  · rintro ⟨hattributes, hrepo, hlocations⟩
    have hfiles : m.files.map (fun fe => { fe with attributes := {} }) = m.files := by
      refine (List.map_congr_left fun fe hfe => ?_).trans (List.map_id _)
      rw [← hattributes fe hfe]
      rfl
    rw [flattened, hfiles, ← hrepo, ← hlocations]

/-- The hash of the repository passes afterwards only if it was zero. -/
theorem verifyRepoHash_flattened_iff {platform : Platform} {m : Manifest}
    (h : IntegrityVerifier.verifyRepoHash platform m = true) :
    IntegrityVerifier.verifyRepoHash platform (flattened m) = true ↔
      m.hashes.repoHash = zeroDigest := by
  have hhash := of_decide_eq_true h
  rw [← hhash]
  exact decide_eq_true_iff

/-- Exactly the manifests survive that have only what the compatible ones have. -/
theorem survives_iff (platform : Platform) (json : CompatJson)
    (parseUuid : String → Except String Uuid) (repo : CompatibleRepository)
    (v : VersionId) (m : Manifest) (hparse : ∀ u, parseUuid (uuidText u) = .ok u)
    (hjson : json.manifestFromSlice (json.manifestToVec (manifestToCompat m)) =
      .ok (manifestToCompat m)) :
    Survives platform json parseUuid repo v m ↔ Plain m := by
  have hread := readManifest_writeManifest hparse hjson repo v
  rw [← flattened_eq_self_iff]
  constructor
  · rintro ⟨read, hread', hsame, -⟩
    rw [hread] at hread'
    rw [Except.ok.inj hread', hsame]
  · intro hplain
    exact ⟨_, hread, hplain, fun h => hplain.symm ▸ h⟩

end RoundTrip

section Example

open BackupEngine

/-- A version of one hidden file, with the hash of the repository that belongs to its
other hashes. -/
def hiddenManifest : Manifest where
  versionId := (exampleExecution 4).versionId
  timestamp := exampleTime
  parentVersionId := some (exampleExecution 3).versionId
  versionNumber := 2
  backupType := .incremental
  files := [{ exampleFile "/data/abc" 0 with attributes := { isHidden := true } }]
  chunkRefs := []
  hashes := {
    manifestHash := zeroDigest
    fileIndexHash := zeroDigest
    chunkIndexHash := zeroDigest
    repoHash := Sha256.hash
      (zeroDigest.toList ++ zeroDigest.toList ++ zeroDigest.toList) }
  chunkLocations := ∅

def hiddenJson : CompatJson :=
  Json.only (CompatibleRepository.newMetadata "test-adapter" exampleTime)
    (manifestToCompat hiddenManifest)

theorem manifestFromSlice_hiddenJson :
    hiddenJson.manifestFromSlice (hiddenJson.manifestToVec
      (manifestToCompat hiddenManifest)) = .ok (manifestToCompat hiddenManifest) := by
  simp only [hiddenJson, Json.only, if_pos]

def hiddenPlatform : Platform :=
  (IntegrityVerifier.selfCheckEngine Sha256.hash hiddenManifest).toPlatform

theorem verifyRepoHash_hiddenManifest :
    IntegrityVerifier.verifyRepoHash hiddenPlatform hiddenManifest = true :=
  decide_eq_true rfl

theorem repoHash_hiddenManifest_ne : hiddenManifest.hashes.repoHash ≠ zeroDigest := by
  decide +kernel

theorem survives_iff_hidden :
    Survives hiddenPlatform hiddenJson uuidOfText
        (.init hiddenJson "test-adapter" exampleTime) hiddenManifest.versionId
        hiddenManifest ↔
      Plain hiddenManifest :=
  survives_iff hiddenPlatform hiddenJson uuidOfText _ _ _ uuidOfText_uuidText
    manifestFromSlice_hiddenJson

/-- The manifest is read without the attribute and without the hash, and does not pass
the check of the hash any more. -/
theorem not_survives_hidden :
    ¬ Survives hiddenPlatform hiddenJson uuidOfText
        (.init hiddenJson "test-adapter" exampleTime) hiddenManifest.versionId
        hiddenManifest ∧
      IntegrityVerifier.verifyRepoHash hiddenPlatform hiddenManifest = true ∧
      ∃ read, readManifest uuidOfText hiddenJson hiddenManifest.versionId
          (writeManifest hiddenJson hiddenManifest.versionId hiddenManifest
            (.init hiddenJson "test-adapter" exampleTime)) = .ok read ∧
        IntegrityVerifier.verifyRepoHash hiddenPlatform read = false := by
  have hread := readManifest_writeManifest uuidOfText_uuidText
    manifestFromSlice_hiddenJson (.init hiddenJson "test-adapter" exampleTime)
    hiddenManifest.versionId
  refine ⟨?_, verifyRepoHash_hiddenManifest, _, hread, ?_⟩
  · rintro ⟨read, hread', hsame, -⟩
    rw [hread] at hread'
    have hplain := flattened_eq_self_iff.mp ((Except.ok.inj hread').trans hsame)
    exact repoHash_hiddenManifest_ne hplain.repoHash
  · rw [← Bool.not_eq_true,
      verifyRepoHash_flattened_iff verifyRepoHash_hiddenManifest]
    exact repoHash_hiddenManifest_ne

end Example

end CompatibilityRepoAdapter

end Compat
end HyperBackup
