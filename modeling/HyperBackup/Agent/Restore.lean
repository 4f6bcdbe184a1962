import HyperBackup.Agent.Engine

/-!
# Restoring a version

A restore reads the manifest of a version, selects files, and for every file
reads its chunks, decrypts and decompresses them, writes the data under the
target and compares its hash with the one in the manifest.  Only the last
component of a path is kept under the target.
-/

namespace HyperBackup
namespace Agent

open Lib Lib.Program

inductive FileSelection
  | all
  | fileList (paths : List String)
  | glob (pattern : String)
  | search (query : String)
  | pathPrefix (start : String)
  | dateRange (start stop : DateTime)

inductive RestoreMode
  | overwrite
  | skip
  | rename
  | newLocation
deriving DecidableEq

structure RestoreJob where
  sourceVersionId : VersionId
  fileSelection : FileSelection
  restoreMode : RestoreMode
  targetLocation : String

structure RestoreResult where
  versionId : VersionId
  filesRestored : Nat
  filesFailed : Nat
  bytesRestored : Nat
  allVerified : Bool
  failedFiles : List String
deriving DecidableEq

inductive RestoreError
  | repo (error : RepoError)
  | compress (error : CompressError)
  | encrypt (error : EncryptError)
deriving DecidableEq

abbrev RestoreM : Type → Type :=
  EStateM RestoreError Files

namespace Restore

/-- Match a text with a pattern of `*` and `?`. -/
def globHelper : List Char → List Char → Bool
  | [], text => text.isEmpty
  | '*' :: pattern, text =>
      pattern.isEmpty || text.tails.any fun rest => globHelper pattern rest
  | _ :: _, [] => false
  | p :: pattern, c :: text => (p == '?' || p == c) && globHelper pattern text

def globMatch (pattern text : String) : Bool :=
  globHelper pattern.toList text.toList

def planFiles (manifest : Manifest) : FileSelection → List FileEntry
  | .all => manifest.files
  | .fileList paths => manifest.files.filter fun f => f.path ∈ paths
  | .glob pattern => manifest.files.filter fun f => globMatch pattern f.path
  | .search query => manifest.files.filter fun f =>
      f.path.toList.tails.any fun rest => query.toList.isPrefixOf rest
  | .pathPrefix start => manifest.files.filter fun f =>
      start.toList.isPrefixOf f.path.toList
  | .dateRange start stop => manifest.files.filter fun f =>
      start ≤ f.modifiedAt ∧ f.modifiedAt ≤ stop

/-- The last component of a path, or nothing. -/
def baseName (path : String) : String :=
  (Path.fileName path).getD ""

def computeTargetPath (targetBase sourcePath : String) : RestoreMode → String
  | .overwrite | .newLocation | .skip =>
      Path.join targetBase (baseName sourcePath)
  | .rename => Path.join targetBase (baseName sourcePath ++ ".restored")

def chunkLocationFromHash (hash : ChunkHash) : ChunkLocation where
  bucket := Hex.encode (hash.digest.toList.take 1)
  path := hash.toHex ++ ".chunk"

section Operations

variable (platform : Platform)

/-- Read, decrypt and decompress the chunk at a location. -/
def fetchChunk (files : Files) (location : ChunkLocation) :
    Except RestoreError Bytes := do
  let encrypted ←
    (LocalRepository.readChunk platform.root files location).mapError .repo
  let compressed ← (platform.decryptChunk encrypted).mapError .encrypt
  (platform.decompress compressed).mapError .compress

/-- Where a chunk is looked for: the manifest says so, or its hash. -/
def locateChunk (files : Files) (manifest : Manifest) (hash : ChunkHash) :
    ChunkLocation :=
  match manifest.chunkLocations.lookup hash.toHex with
  | some location => location
  | none =>
      match LocalRepository.findChunk platform.root files hash with
      | .ok location => location
      | .error _ => chunkLocationFromHash hash

/-- The data of a file from its chunks. -/
def readFileData (files : Files) (manifest : Manifest)
    (chunks : List ChunkHash) : Except RestoreError Bytes :=
  chunks.foldlM (fun fileData hash => do
    let plain ← fetchChunk platform files (locateChunk platform files manifest hash)
    return fileData ++ plain) []

/-- Write the data of a file and compare its hash with the entry. -/
def writeAndVerify (targetPath : String) (entry : FileEntry) (fileData : Bytes)
    (r : RestoreResult) : RestoreM RestoreResult := do
  modify fun files => Files.write files targetPath fileData
  let r := { r with bytesRestored := r.bytesRestored + fileData.length }
  if platform.sha256 fileData = entry.fileHash then
    return { r with filesRestored := r.filesRestored + 1 }
  else
    return { r with
      allVerified := false
      filesFailed := r.filesFailed + 1
      failedFiles := r.failedFiles ++ [entry.path] }

/-- Restore one file. -/
def restoreFile (job : RestoreJob) (manifest : Manifest) (r : RestoreResult)
    (entry : FileEntry) : RestoreM RestoreResult := do
  let files ← get
  let targetPath :=
    computeTargetPath job.targetLocation entry.path job.restoreMode
  if job.restoreMode = .skip ∧ (files.lookup targetPath).isSome then
    return { r with filesRestored := r.filesRestored + 1 }
  else
    let fileData ←
      ofResult id (readFileData platform files manifest entry.chunks)
    writeAndVerify platform targetPath entry fileData r

def runRestore (job : RestoreJob) : RestoreM RestoreResult := do
  let files ← get
  let manifest ← ofResult .repo
    (LocalRepository.readManifest platform.root platform.json files
      job.sourceVersionId)
  (planFiles manifest job.fileSelection).foldlM
    (restoreFile platform job manifest)
    { versionId := job.sourceVersionId
      filesRestored := 0
      filesFailed := 0
      bytesRestored := 0
      allVerified := true
      failedFiles := [] }

end Operations

section Specs

variable {platform : Platform} {files files' : Files}

/-- What a location yields depends on the file at that place only. -/
theorem fetchChunk_congr {location : ChunkLocation}
    (h : files'.lookup (LocalRepository.locationPath platform.root location) =
      files.lookup (LocalRepository.locationPath platform.root location)) :
    fetchChunk platform files' location = fetchChunk platform files location := by
  simp only [fetchChunk, LocalRepository.readChunk, LocalRepository.readFile, h]

/-- A location that yields data has a file. -/
theorem lookup_of_fetchChunk {location : ChunkLocation} {data : Bytes}
    (h : fetchChunk platform files location = .ok data) :
    ∃ bytes,
      files.lookup (LocalRepository.locationPath platform.root location) =
        some bytes := by
  cases hlookup : files.lookup
      (LocalRepository.locationPath platform.root location) with
  | none =>
      simp only [fetchChunk, LocalRepository.readChunk,
        LocalRepository.readFile, hlookup] at h
      cases h
  | some bytes =>
      exact ⟨bytes, rfl⟩

/-- If every chunk yields its data, the file yields all of it. -/
theorem readFileData_eq_ok {manifest : Manifest} {α : Type} (chunks : List α)
    (hash : α → ChunkHash) (data : α → Bytes)
    (h : ∀ c ∈ chunks, fetchChunk platform files
      (locateChunk platform files manifest (hash c)) = .ok (data c)) :
    readFileData platform files manifest (chunks.map hash) =
      .ok (chunks.flatMap data) := by
  have key : ∀ start : Bytes, (chunks.map hash).foldlM (fun fileData h => do
        let plain ← fetchChunk platform files
          (locateChunk platform files manifest h)
        return fileData ++ plain) start =
      (.ok (start ++ chunks.flatMap data) : Except RestoreError Bytes) := by
    induction chunks with
    | nil =>
        intro start
        simp [pure, Except.pure]
    | cons c chunks ih =>
        intro start
        have hc := h c (by simp)
        have hrest := ih (fun c' hc' => h c' (by simp [hc'])) (start ++ data c)
        rw [List.map_cons, List.foldlM_cons, hc]
        simp only [bind, Except.bind, pure, Except.pure] at hrest ⊢
        rw [hrest, List.flatMap_cons, List.append_assoc]
  simpa [readFileData] using key []

end Specs

end Restore

end Agent
end HyperBackup
