import HyperBackup.Agent.RestoreReport

/-!
# Verification of a version, and what it says about a restore

A verification reads the manifest of a version and checks its own hashes, then
the chunks it refers to, then, in its deepest mode, every file.  An item that
cannot be checked counts as failed.

Verification and restore read chunks on their own: one looks for a chunk under
its hash, the other where the manifest says; one collects failures, the other
stops.  They still agree on every state of the chunk files, as long as no file
is restored onto a chunk that a later file needs.
-/

namespace HyperBackup
namespace Agent

open Lib Lib.Program

inductive VerifyItemType
  | file
  | chunk
  | manifest
  | repo
deriving DecidableEq

inductive VerifyMode
  | quick
  | random (ratio : F64)
  | full
  | deep
deriving DecidableEq

structure VerifyFailure where
  itemType : VerifyItemType
  identifier : String
  expectedHash : HashDigest
  actualHash : HashDigest
deriving DecidableEq

structure VerifyReport where
  versionId : VersionId
  mode : VerifyMode
  startedAt : DateTime
  completedAt : DateTime
  totalChecked : Nat
  passed : Nat
  failed : Nat
  failures : List VerifyFailure
deriving DecidableEq

inductive VerifyError
  | failed (text : String)
  | repo (error : RepoError)
  | encrypt (error : EncryptError)
  | compress (error : CompressError)
deriving DecidableEq

/-- The counts and failures of a verification so far. -/
structure Tally where
  totalChecked : Nat
  passed : Nat
  failures : List VerifyFailure
deriving DecidableEq

namespace Tally

def start : Tally where
  totalChecked := 0
  passed := 0
  failures := []

/-- Count an item that was checked; an error counts as a failure. -/
def check (t : Tally) (outcome : Except VerifyError Bool)
    (failure : VerifyFailure) : Tally :=
  match outcome with
  | .ok true =>
      { t with totalChecked := t.totalChecked + 1, passed := t.passed + 1 }
  | .ok false | .error _ =>
      { t with
        totalChecked := t.totalChecked + 1
        failures := t.failures ++ [failure] }

/-- What was checked either passed or is listed as a failure. -/
def Balanced (t : Tally) : Prop :=
  t.totalChecked = t.passed + t.failures.length

end Tally

namespace IntegrityVerifier

open Restore

/-- What the verifier finds of its own: the order in which a hash set lists
the chunks, the random order of a sample and the time. -/
structure Circumstances where
  order : IterOrder ChunkHash
  shuffle : IterOrder ChunkHash
  startedAt : DateTime
  completedAt : DateTime

/-- The number of chunks in a sample. -/
def sampleSize (count : Nat) (ratio : F64) : Nat :=
  let ratio := Float.ofBits ratio.bits
  let ratio := if ratio < 0 then 0 else if 1 < ratio then 1 else ratio
  let target := ((UInt64.ofNat count).toFloat * ratio).ceil.toUInt64.toNat
  min (max target 1) count

def sampleChunks (shuffle : IterOrder ChunkHash) (hashes : List ChunkHash)
    (ratio : F64) : List ChunkHash :=
  (shuffle.arrange hashes).take (sampleSize hashes.length ratio)

section Operations

variable (platform : Platform) (files : Files)

/-- The manifest is hashed with its own hash and that of the repository left
out. -/
def verifyManifestHash (manifest : Manifest) : Bool :=
  let tempManifest := { manifest with
    hashes := { manifest.hashes with
      manifestHash := zeroDigest
      repoHash := zeroDigest } }
  platform.sha256 (platform.json.toVec tempManifest) =
    manifest.hashes.manifestHash

def verifyRepoHash (manifest : Manifest) : Bool :=
  platform.sha256 (manifest.hashes.manifestHash.toList ++
    manifest.hashes.fileIndexHash.toList ++
      manifest.hashes.chunkIndexHash.toList) = manifest.hashes.repoHash

/-- Read, decrypt and decompress a chunk where its hash says. -/
def readPlain (hash : ChunkHash) : Except VerifyError Bytes := do
  let encrypted ← (LocalRepository.readChunk platform.root files
    (chunkLocationFromHash hash)).mapError .repo
  let compressed ← (platform.decryptChunk encrypted).mapError .encrypt
  (platform.decompress compressed).mapError .compress

def verifyChunk (hash : ChunkHash) : Except VerifyError Bool := do
  let plain ← readPlain platform files hash
  return platform.blake3 plain = hash

/-- The hasher is fed with one chunk after the other. -/
def verifyFileHash (file : FileEntry) : Except VerifyError Bool := do
  let fed ← file.chunks.foldlM (fun fed hash => do
    let plain ← readPlain platform files hash
    return fed ++ plain) []
  return platform.sha256 fed = file.fileHash

def checkChunk (t : Tally) (hash : ChunkHash) : Tally :=
  t.check (verifyChunk platform files hash) {
    itemType := .chunk
    identifier := hash.toHex
    expectedHash := hash.digest
    actualHash := zeroDigest }

def checkFile (t : Tally) (file : FileEntry) : Tally :=
  t.check (verifyFileHash platform files file) {
    itemType := .file
    identifier := file.path
    expectedHash := file.fileHash
    actualHash := zeroDigest }

/-- The two hashes that the manifest has of itself. -/
def checkHashes (versionId : VersionId) (manifest : Manifest) : Tally :=
  (Tally.start.check (.ok (verifyManifestHash platform manifest)) {
    itemType := .manifest
    identifier := uuidText versionId.uuid
    expectedHash := manifest.hashes.manifestHash
    actualHash := zeroDigest }).check
      (.ok (verifyRepoHash platform manifest)) {
    itemType := .repo
    identifier := uuidText versionId.uuid
    expectedHash := manifest.hashes.repoHash
    actualHash := zeroDigest }

/-- The chunks that the manifest refers to, each once. -/
def chunkHashes (found : Circumstances) (manifest : Manifest) :
    List ChunkHash :=
  found.order.arrange (manifest.chunkRefs.map ChunkReference.hash).dedup

/-- The checks of a mode, after those of the hashes. -/
def checkItems (found : Circumstances) (mode : VerifyMode)
    (manifest : Manifest) (t : Tally) : Tally :=
  match mode with
  | .quick => t
  | .random ratio =>
      (sampleChunks found.shuffle (chunkHashes found manifest) ratio).foldl
        (checkChunk platform files) t
  | .full =>
      (chunkHashes found manifest).foldl (checkChunk platform files) t
  | .deep =>
      manifest.files.foldl (checkFile platform files)
        ((chunkHashes found manifest).foldl (checkChunk platform files) t)

def verify (found : Circumstances) (versionId : VersionId)
    (mode : VerifyMode) : Except VerifyError VerifyReport := do
  let manifest ← (LocalRepository.readManifest platform.root platform.json files
    versionId).mapError .repo
  let t := checkItems platform files found mode manifest
    (checkHashes platform versionId manifest)
  return {
    versionId := versionId
    mode := mode
    startedAt := found.startedAt
    completedAt := found.completedAt
    totalChecked := t.totalChecked
    passed := t.passed
    failed := t.totalChecked - t.passed
    failures := t.failures }

end Operations

section Tallies

variable {platform : Platform} {files : Files} {t : Tally}

/-- An item fails unless it was found right. -/
theorem mem_failures_check {outcome : Except VerifyError Bool}
    {failure f : VerifyFailure} :
    f ∈ (t.check outcome failure).failures ↔
      f ∈ t.failures ∨ (outcome ≠ .ok true ∧ f = failure) := by
  cases outcome with
  | error e =>
      simp [Tally.check]
  | ok right =>
      cases right with
      | true =>
          simp [Tally.check]
      | false =>
          simp [Tally.check]

/-- No failure is one of a file. -/
def NoFileFailure (failures : List VerifyFailure) : Prop :=
  ∀ f ∈ failures, f.itemType ≠ .file

theorem noFileFailure_check_of_ne {outcome : Except VerifyError Bool}
    {failure : VerifyFailure} (h : failure.itemType ≠ .file) :
    NoFileFailure (t.check outcome failure).failures ↔
      NoFileFailure t.failures := by
  simp only [NoFileFailure, mem_failures_check]
  constructor
  · intro hall f hf
    exact hall f (Or.inl hf)
  · rintro hall f (hf | ⟨_, rfl⟩)
    · exact hall f hf
    · exact h

theorem noFileFailure_checkFile {file : FileEntry} :
    NoFileFailure (checkFile platform files t file).failures ↔
      NoFileFailure t.failures ∧
        verifyFileHash platform files file = .ok true := by
  simp only [NoFileFailure, checkFile, mem_failures_check]
  constructor
  · intro hall
    refine ⟨fun f hf => hall f (Or.inl hf), ?_⟩
    by_contra hwrong
    exact hall _ (Or.inr ⟨hwrong, rfl⟩) rfl
  · rintro ⟨hall, hright⟩ f (hf | ⟨hwrong, _⟩)
    · exact hall f hf
    · exact absurd hright hwrong

theorem noFileFailure_foldl_checkChunk (hashes : List ChunkHash) :
    NoFileFailure (hashes.foldl (checkChunk platform files) t).failures ↔
      NoFileFailure t.failures := by
  induction hashes generalizing t with
  | nil =>
      exact Iff.rfl
  | cons hash rest ih =>
      rw [List.foldl_cons, ih]
      exact noFileFailure_check_of_ne nofun

theorem noFileFailure_foldl_checkFile (entries : List FileEntry) :
    NoFileFailure (entries.foldl (checkFile platform files) t).failures ↔
      NoFileFailure t.failures ∧
        ∀ f ∈ entries, verifyFileHash platform files f = .ok true := by
  induction entries generalizing t with
  | nil =>
      simp
  | cons f rest ih =>
      rw [List.foldl_cons, ih, noFileFailure_checkFile, List.forall_mem_cons,
        and_assoc]

/-- A deep verification reports no file iff every file was found right. -/
theorem exists_verify_deep {versionId : VersionId} {manifest : Manifest}
    (hread : LocalRepository.readManifest platform.root platform.json files
      versionId = .ok manifest) (found : Circumstances) :
    ∃ report, verify platform files found versionId .deep = .ok report ∧
      (NoFileFailure report.failures ↔
        ∀ f ∈ manifest.files, verifyFileHash platform files f = .ok true) := by
  refine ⟨_, by rw [verify, hread]; rfl, ?_⟩
  change NoFileFailure (List.foldl (checkFile platform files) _ _).failures ↔ _
  rw [noFileFailure_foldl_checkFile, noFileFailure_foldl_checkChunk]
  have hhashes : NoFileFailure
      (checkHashes platform versionId manifest).failures := by
    unfold checkHashes
    rw [noFileFailure_check_of_ne, noFileFailure_check_of_ne]
    · exact fun f hf => absurd hf List.not_mem_nil
    · exact VerifyItemType.noConfusion
    · exact VerifyItemType.noConfusion
  exact and_iff_right hhashes

theorem balanced_check {outcome : Except VerifyError Bool}
    {failure : VerifyFailure} (h : t.Balanced) :
    (t.check outcome failure).Balanced := by
  unfold Tally.Balanced at h ⊢
  cases outcome with
  | error e =>
      simp only [Tally.check, List.length_append, List.length_singleton]
      omega
  | ok right =>
      cases right with
      | true =>
          simp only [Tally.check]
          omega
      | false =>
          simp only [Tally.check, List.length_append, List.length_singleton]
          omega

theorem balanced_checkItems {found : Circumstances} {mode : VerifyMode}
    {manifest : Manifest} (h : t.Balanced) :
    (checkItems platform files found mode manifest t).Balanced := by
  have hchunks : ∀ hashes : List ChunkHash,
      (hashes.foldl (checkChunk platform files) t).Balanced := fun hashes =>
    List.foldlRecOn hashes _ h fun _ hb _ _ => balanced_check hb
  cases mode with
  | quick =>
      exact h
  | random ratio =>
      exact hchunks _
  | full =>
      exact hchunks _
  | deep =>
      exact List.foldlRecOn manifest.files _ (hchunks _)
        fun _ hb _ _ => balanced_check hb

/-- The number of failures in a report is the length of its list. -/
theorem failed_of_verify {found : Circumstances} {versionId : VersionId}
    {mode : VerifyMode} {report : VerifyReport}
    (h : verify platform files found versionId mode = .ok report) :
    report.failed = report.failures.length := by
  unfold verify at h
  cases hread : LocalRepository.readManifest platform.root platform.json files
      versionId with
  | error e =>
      rw [hread] at h
      cases h
  | ok manifest =>
      rw [hread] at h
      cases h
      have hstart : Tally.Balanced (checkHashes platform versionId manifest) :=
        balanced_check (balanced_check rfl)
      have hbalanced : Tally.Balanced (checkItems platform files found mode
          manifest (checkHashes platform versionId manifest)) :=
        balanced_checkItems hstart
      exact Nat.sub_eq_of_eq_add' hbalanced

end Tallies

section Reading

/-- Concatenating what is fetched succeeds iff every fetch does. -/
theorem foldlM_append_eq_ok_iff {α ε : Type} (fetch : α → Except ε Bytes)
    (xs : List α) (start data : Bytes) :
    xs.foldlM (fun acc x => do
        let plain ← fetch x
        return acc ++ plain) start = .ok data ↔
      ∃ plainOf : α → Bytes, (∀ x ∈ xs, fetch x = .ok (plainOf x)) ∧
        data = start ++ xs.flatMap plainOf := by
  induction xs generalizing start with
  | nil =>
      simp [pure, Except.pure, eq_comm]
  | cons x xs ih =>
      rw [List.foldlM_cons]
      cases hx : fetch x with
      | error e =>
          constructor
          · intro h
            cases h
          · rintro ⟨plainOf, hall, _⟩
            cases hx.symm.trans (hall x List.mem_cons_self)
      | ok plain =>
          simp only [bind, Except.bind, pure, Except.pure] at ih ⊢
          rw [ih]
          constructor
          · rintro ⟨plainOf, hall, rfl⟩
            refine ⟨fun y => (fetch y).toOption.getD [], ?_, ?_⟩
            · rintro y hy
              rcases List.mem_cons.mp hy with rfl | hy
              · simp [hx, Except.toOption]
              · simp [hall y hy, Except.toOption]
            · have hrest : xs.flatMap plainOf =
                  xs.flatMap fun y => (fetch y).toOption.getD [] := by
                refine List.flatMap_congr fun y hy => ?_
                rw [hall y hy]
                rfl
              rw [List.flatMap_cons, ← hrest, hx, List.append_assoc]
              rfl
          · rintro ⟨plainOf, hall, rfl⟩
            refine ⟨plainOf, fun y hy => hall y (List.mem_cons_of_mem x hy), ?_⟩
            cases hx.symm.trans (hall x List.mem_cons_self)
            rw [List.flatMap_cons, List.append_assoc]

variable {platform : Platform} {files : Files} {manifest : Manifest}

/-- The locations in the manifest are those of the repository. -/
def Located (manifest : Manifest) : Prop :=
  ∀ hash location, manifest.chunkLocations.lookup hash.toHex = some location →
    location = chunkLocation hash

theorem locateChunk_of_located (h : Located manifest) (hash : ChunkHash) :
    locateChunk platform files manifest hash = chunkLocation hash := by
  cases hlookup : manifest.chunkLocations.lookup hash.toHex with
  | none =>
      exact RestoreReport.locateChunk_of_not_recorded hlookup
  | some location =>
      rw [locateChunk, hlookup]
      exact h hash location hlookup

/-- Verifier and restore fetch the same data where both find any. -/
theorem readPlain_eq_ok_iff {hash : ChunkHash} {plain : Bytes} :
    readPlain platform files hash = .ok plain ↔
      fetchChunk platform files (chunkLocation hash) = .ok plain := by
  have hlocation : chunkLocationFromHash hash = chunkLocation hash := rfl
  unfold readPlain fetchChunk
  rw [hlocation]
  cases LocalRepository.readChunk platform.root files (chunkLocation hash) with
  | error e =>
      simp [bind, Except.bind, Except.mapError]
  | ok encrypted =>
      cases hdecrypt : platform.decryptChunk encrypted with
      | error e =>
          simp [bind, Except.bind, Except.mapError, hdecrypt]
      | ok compressed =>
          cases hplain : platform.decompress compressed with
          | error e =>
              simp [bind, Except.bind, Except.mapError, hdecrypt, hplain]
          | ok plain =>
              simp [bind, Except.bind, Except.mapError, hdecrypt, hplain]

/-- The chunks, each fetched under its hash, make up the data. -/
def Holds (platform : Platform) (files : Files) (chunks : List ChunkHash)
    (data : Bytes) : Prop :=
  ∃ plainOf : ChunkHash → Bytes,
    (∀ hash ∈ chunks, fetchChunk platform files (chunkLocation hash) =
      .ok (plainOf hash)) ∧
    data = chunks.flatMap plainOf

theorem readFileData_eq_ok_iff (h : Located manifest)
    {chunks : List ChunkHash} {data : Bytes} :
    readFileData platform files manifest chunks = .ok data ↔
      Holds platform files chunks data := by
  unfold readFileData
  simp only [locateChunk_of_located h]
  rw [foldlM_append_eq_ok_iff]
  rfl

theorem verifyFileHash_eq_true_iff {file : FileEntry} :
    verifyFileHash platform files file = .ok true ↔
      ∃ data, Holds platform files file.chunks data ∧
        platform.sha256 data = file.fileHash := by
  have hfed : ∀ data, file.chunks.foldlM (fun fed hash => do
        let plain ← readPlain platform files hash
        return fed ++ plain) [] = .ok data ↔
      Holds platform files file.chunks data := by
    intro data
    rw [foldlM_append_eq_ok_iff]
    simp only [readPlain_eq_ok_iff]
    rfl
  unfold verifyFileHash
  cases hread : file.chunks.foldlM (fun fed hash => do
      let plain ← readPlain platform files hash
      return fed ++ plain) [] with
  | error e =>
      constructor
      · intro h
        cases h
      · rintro ⟨data, hdata, _⟩
        cases hread.symm.trans ((hfed data).mpr hdata)
  | ok fed =>
      have hresult : (do
          let fed ← (.ok fed : Except VerifyError Bytes)
          return decide (platform.sha256 fed = file.fileHash)) =
            (.ok true : Except VerifyError Bool) ↔
          platform.sha256 fed = file.fileHash := by
        simp [bind, Except.bind, pure, Except.pure]
      rw [hresult]
      constructor
      · intro h
        exact ⟨fed, (hfed fed).mp hread, h⟩
      · rintro ⟨data, hdata, h⟩
        cases hread.symm.trans ((hfed data).mpr hdata)
        exact h

end Reading

section Restoring

open RestoreReport BackupRestore

variable {platform : Platform} {job : RestoreJob} {manifest : Manifest}
variable {files : Files}

/-- The chunks of the file hold data with its hash. -/
def Intact (platform : Platform) (files : Files) (f : FileEntry) : Prop :=
  ∃ data, Holds platform files f.chunks data ∧
    platform.sha256 data = f.fileHash

/-- No file is restored onto a chunk that a later one needs. -/
def Apart (platform : Platform) (job : RestoreJob)
    (entries : List FileEntry) : Prop :=
  entries.Pairwise fun f g => ∀ hash ∈ g.chunks,
    targetOf job f ≠ LocalRepository.chunkPath platform.root hash

/-- What the chunks hold depends on their files only. -/
theorem holds_congr {files' : Files} {chunks : List ChunkHash}
    (h : ∀ hash ∈ chunks,
      files'.lookup (LocalRepository.chunkPath platform.root hash) =
        files.lookup (LocalRepository.chunkPath platform.root hash))
    (data : Bytes) :
    Holds platform files' chunks data ↔ Holds platform files chunks data := by
  unfold Holds
  refine exists_congr fun plainOf => and_congr_left fun _ => ?_
  refine forall₂_congr fun hash hmem => ?_
  rw [fetchChunk_congr (h hash hmem)]

/-- Writing a restored file leaves what another needs. -/
theorem intact_write {f g : FileEntry}
    (h : ∀ hash ∈ g.chunks,
      targetOf job f ≠ LocalRepository.chunkPath platform.root hash)
    (data : Bytes) :
    Intact platform (Files.write files (targetOf job f) data) g ↔
      Intact platform files g := by
  unfold Intact
  refine exists_congr fun _ => and_congr_left fun _ => ?_
  refine holds_congr (fun hash hmem => ?_) _
  rw [Files.lookup_write, if_neg (h hash hmem).symm]

/-- Where existing files are replaced, a run over the files returns with all
of them verified iff all of them are intact. -/
theorem restoreFiles_verified_iff (hlocated : Located manifest)
    (hmode : job.restoreMode = .overwrite) {entries : List FileEntry}
    (hapart : Apart platform job entries) {r : RestoreResult} :
    (∃ r' files', (entries.foldlM (restoreFile platform job manifest) r).run
        files = .ok r' files' ∧ r'.allVerified = true) ↔
      r.allVerified = true ∧ ∀ f ∈ entries, Intact platform files f := by
  induction entries generalizing r files with
  | nil =>
      constructor
      · rintro ⟨r', files', hrun, hverified⟩
        cases hrun
        exact ⟨hverified, nofun⟩
      · rintro ⟨hverified, _⟩
        exact ⟨r, files, rfl, hverified⟩
  | cons f rest ih =>
      have hwritten : ¬ Skipped job files f := by
        rintro ⟨hskip, _⟩
        rw [hmode] at hskip
        cases hskip
      obtain ⟨hf, hrest⟩ := List.pairwise_cons.mp hapart
      rw [List.foldlM_cons, List.forall_mem_cons]
      cases hdata : readFileData platform files manifest f.chunks with
      | error e =>
          rw [run_bind_of_error (run_restoreFile_of_error hwritten hdata)]
          constructor
          · rintro ⟨_, _, hrun, _⟩
            cases hrun
          · rintro ⟨_, ⟨data, hholds, _⟩, _⟩
            cases hdata.symm.trans ((readFileData_eq_ok_iff hlocated).mpr hholds)
      | ok data =>
          rw [run_bind_of_ok (run_restoreFile_of_data hwritten hdata),
            ih hrest, allVerified_reported, and_assoc]
          refine and_congr_right fun _ => and_congr ?_ ?_
          · constructor
            · intro hhash
              exact ⟨data, (readFileData_eq_ok_iff hlocated).mp hdata, hhash⟩
            · rintro ⟨data', hholds, hhash⟩
              cases hdata.symm.trans
                ((readFileData_eq_ok_iff hlocated).mpr hholds)
              exact hhash
          · refine forall₂_congr fun g hg => ?_
            exact intact_write (hf g hg) data

variable (platform job manifest files) in
/-- A repository with a version, and a restore of all its files to an empty
place. -/
structure Setting : Prop where
  read : LocalRepository.readManifest platform.root platform.json files
    job.sourceVersionId = .ok manifest
  located : Located manifest
  selection : job.fileSelection = .all
  mode : job.restoreMode = .overwrite
  named : ∀ f ∈ manifest.files, (Path.fileName f.path).isSome
  distinct : (manifest.files.map fun f => baseName f.path).Nodup
  empty : ∀ name, Path.isAbsolute name = false →
    files.lookup (Path.join job.targetLocation name) = none

variable (platform job files) in
/-- The restore returns and calls every file verified. -/
def RestoresVerified : Prop :=
  ∃ r files', (runRestore platform job).run files = .ok r files' ∧
    r.allVerified = true

variable (platform job manifest files) in
/-- The verification reports no file iff the restore returns with all files
verified, and then each file has the content it should have. -/
def Predicts : Prop :=
  ∀ found : Circumstances, ∃ report,
    verify platform files found job.sourceVersionId .deep = .ok report ∧
    (NoFileFailure report.failures ↔ RestoresVerified platform job files) ∧
    ∀ r files', (runRestore platform job).run files = .ok r files' →
      r.allVerified = true → ∀ f ∈ manifest.files, ∃ data,
        files'.lookup (targetOf job f) = some data ∧
          platform.sha256 data = f.fileHash

/-- Files with different names have different targets. -/
theorem nodup_targetOf (h : Setting platform job manifest files) :
    (manifest.files.map (targetOf job)).Nodup := by
  have hdistinct := List.pairwise_map.mp h.distinct
  refine List.pairwise_map.mpr (hdistinct.imp fun hne heq => hne ?_)
  exact baseName_eq_of_targetOf_eq (Or.inl h.mode) heq

/-- A deep verification predicts the restore of a version, if no file is
restored onto a chunk that a later one needs. -/
theorem predicts_of_apart (h : Setting platform job manifest files)
    (hapart : Apart platform job manifest.files) :
    Predicts platform job manifest files := by
  intro found
  obtain ⟨report, hreport, hfailures⟩ :=
    exists_verify_deep h.read found
  have hplan : planFiles manifest job.fileSelection = manifest.files := by
    rw [h.selection]
    rfl
  have hrestore : RestoresVerified platform job files ↔
      ∀ f ∈ manifest.files, Intact platform files f := by
    unfold RestoresVerified
    rw [run_runRestore h.read, hplan,
      restoreFiles_verified_iff h.located h.mode hapart]
    exact and_iff_right rfl
  refine ⟨report, hreport, ?_, ?_⟩
  · rw [hfailures, hrestore]
    exact forall₂_congr fun f _ => verifyFileHash_eq_true_iff
  · intro r files' hrun hverified f hf
    obtain ⟨data, hdata, hhash⟩ :=
      hrestore.mp ⟨r, files', hrun, hverified⟩ f hf
    rw [run_runRestore h.read, hplan] at hrun
    obtain ⟨before, after, hsplit⟩ := List.append_of_mem hf
    have htargets := nodup_targetOf h
    rw [hsplit] at hrun
    rw [hsplit, List.map_append, List.map_cons, List.nodup_middle,
      List.nodup_cons] at htargets
    have hdecides : Decides job before f after := by
      rw [Decides, if_neg (by rw [h.mode]; exact RestoreMode.noConfusion)]
      intro g hg heq
      refine htargets.1 (List.mem_append_right _ ?_)
      rw [← heq]
      exact List.mem_map_of_mem hg
    have hwritten : ¬ Skipped job files f := by
      rintro ⟨hskip, _⟩
      rw [h.mode] at hskip
      cases hskip
    obtain ⟨data', _, hread, hlookup⟩ :=
      lookup_of_decides hrun hdecides hwritten
    -- what was restored before it did not touch its chunks
    have hkept : Holds platform files f.chunks data' := by
      refine (holds_congr (fun hash hmem => ?_) _).mp
        ((readFileData_eq_ok_iff h.located).mp hread)
      refine lookup_filesRestored_of_ne fun g hg => ?_
      rw [hsplit] at hapart
      exact (List.pairwise_append.mp hapart).2.2 g hg f List.mem_cons_self
        hash hmem
    cases ((readFileData_eq_ok_iff h.located).mpr hkept).symm.trans
      ((readFileData_eq_ok_iff h.located).mpr hdata)
    exact ⟨data, hlookup, hhash⟩

end Restoring

section Example

open BackupEngine BackupRestore RestoreReport

/-- A restore that replaces existing files. -/
def overwriteRestore (target : String) : RestoreJob :=
  { abcRestore target with restoreMode := .overwrite }

theorem lookup_join_of_not_prefix {files : Files} {target : String}
    (h : ∀ path ∈ files.keys, ¬ target.toList <+: path.toList) (name : String)
    (hname : Path.isAbsolute name = false) :
    files.lookup (Path.join target name) = none := by
  rw [AList.lookup_eq_none]
  intro hmem
  refine h _ hmem ?_
  obtain ⟨r, hr⟩ := Path.exists_join_eq_append_of_relative target hname
  rw [hr, String.toList_append]
  exact List.prefix_append _ _

/-- The machine has two files: a chunk and a manifest. -/
theorem setting_versionStored {hash : ChunkHash} {encrypted : EncryptedChunk}
    {files : List FileEntry} {target : String}
    (hchunk : ¬ target.toList <+:
      (LocalRepository.chunkPath "/repo" hash).toList)
    (hmanifest : ¬ target.toList <+: (LocalRepository.manifestPath "/repo"
      (exampleExecution 4).versionId).toList)
    (hnamed : ∀ f ∈ files, (Path.fileName f.path).isSome)
    (hdistinct : (files.map fun f => baseName f.path).Nodup) :
    Setting (examplePlatform (manifestOf files)) (overwriteRestore target)
      (manifestOf files) (versionStored hash encrypted files) where
  read := readManifest_versionStored hash encrypted files target
  located := by
    intro h location hlookup
    cases hlookup
  selection := rfl
  mode := rfl
  named := hnamed
  distinct := hdistinct
  empty := by
    refine lookup_join_of_not_prefix fun path hpath => ?_
    have hkeys : path = LocalRepository.manifestPath "/repo"
          (exampleExecution 4).versionId ∨
        path = LocalRepository.chunkPath "/repo" hash := by
      have hsome : ((versionStored hash encrypted files).lookup path).isSome :=
        AList.lookup_isSome.mpr hpath
      simp only [versionStored, Files.lookup_write] at hsome
      split at hsome
      · next h =>
          exact Or.inl h
      · split at hsome
        · next h =>
            exact Or.inr h
        · cases hsome
    rcases hkeys with rfl | rfl
    · exact hmanifest
    · exact hchunk

/-- A restore of two files next to the repository is predicted. -/
theorem predicts_abc :
    Predicts (examplePlatform (manifestOf [abcFile "/a/x", emptyFile "/b/y"]))
      (overwriteRestore "/restore")
      (manifestOf [abcFile "/a/x", emptyFile "/b/y"])
      (abcStored [abcFile "/a/x", emptyFile "/b/y"]) := by
  refine predicts_of_apart (setting_versionStored (by decide +kernel)
    (by decide +kernel) (by decide) (by decide)) ?_
  refine List.pairwise_cons.mpr ⟨?_, List.pairwise_singleton _ _⟩
  intro g hg hash hhash
  cases List.mem_singleton.mp hg
  cases hhash

/-- A file with the name and the content of the chunk file of `abc`. -/
def chunkImage : FileEntry :=
  { exampleFile chunkNamed 40 with
    chunks := [.ofEmpty]
    fileHash := Sha256.hash (encodeEncryptedChunk abcEncrypted) }

/-- A machine that has lost the chunk of `abc`, but has a file with a copy of
that chunk in another chunk. -/
def chunkLost : Files :=
  versionStored .ofEmpty (wrapChunk (0 :: encodeEncryptedChunk abcEncrypted))
    [chunkImage, abcFile "/data/abc"]

theorem targetOf_chunkImage :
    targetOf (overwriteRestore "/repo/chunks/64") chunkImage =
      LocalRepository.chunkPath "/repo" abcHash := by
  decide +kernel

theorem located_manifestOf (files : List FileEntry) :
    Located (manifestOf files) := by
  intro hash location hlookup
  cases hlookup

/-- The second file is lost. -/
theorem not_intact_chunkLost (m : Manifest) :
    ¬ Intact (examplePlatform m) chunkLost (abcFile "/data/abc") := by
  rintro ⟨data, ⟨plainOf, hfetch, _⟩, _⟩
  obtain ⟨bytes, hbytes⟩ :=
    lookup_of_fetchChunk (hfetch abcHash (List.mem_singleton.mpr rfl))
  have hchunk : LocalRepository.chunkPath "/repo" abcHash ≠
      LocalRepository.chunkPath "/repo" .ofEmpty :=
    LocalRepository.chunkPath_injective.ne (by decide)
  have hmanifest : LocalRepository.chunkPath "/repo" abcHash ≠
      LocalRepository.manifestPath "/repo" (exampleExecution 4).versionId :=
    (LocalRepository.manifestPath_ne_chunkPath _ _).symm
  have hnone : chunkLost.lookup (LocalRepository.chunkPath "/repo" abcHash) =
      none := by
    rw [chunkLost, versionStored, Files.lookup_write, if_neg hmanifest,
      Files.lookup_write, if_neg hchunk]
    rfl
  cases hnone.symm.trans hbytes

/-- The restore of the first file brings the chunk back. -/
theorem restoresVerified_chunkLost :
    RestoresVerified
      (examplePlatform (manifestOf [chunkImage, abcFile "/data/abc"]))
      (overwriteRestore "/repo/chunks/64") chunkLost := by
  have hwritten : ∀ files f,
      ¬ Skipped (overwriteRestore "/repo/chunks/64") files f := by
    rintro files f ⟨hskip, _⟩
    cases hskip
  have hplan : planFiles (manifestOf [chunkImage, abcFile "/data/abc"])
      (overwriteRestore "/repo/chunks/64").fileSelection =
        [chunkImage, abcFile "/data/abc"] :=
    rfl
  have hfirst : readFileData
      (examplePlatform (manifestOf [chunkImage, abcFile "/data/abc"])) chunkLost
      (manifestOf [chunkImage, abcFile "/data/abc"]) chunkImage.chunks =
        .ok (encodeEncryptedChunk abcEncrypted) := by
    have hdecrypt : (examplePlatform (manifestOf
          [chunkImage, abcFile "/data/abc"])).decryptChunk
        (wrapChunk (0 :: encodeEncryptedChunk abcEncrypted)) =
          .ok (0 :: encodeEncryptedChunk abcEncrypted) := by
      simp only [examplePlatform, if_neg (wrapChunk_ne_abcEncrypted _)]
      rfl
    have hne : 0 :: encodeEncryptedChunk abcEncrypted ≠ abcFrame := by
      decide
    refine readFileData_versionStored _ hdecrypt ?_
    simp only [examplePlatform, if_neg hne, List.tail_cons]
  have hsecond : readFileData
      (examplePlatform (manifestOf [chunkImage, abcFile "/data/abc"]))
      (Files.write chunkLost
        (targetOf (overwriteRestore "/repo/chunks/64") chunkImage)
        (encodeEncryptedChunk abcEncrypted))
      (manifestOf [chunkImage, abcFile "/data/abc"])
      (abcFile "/data/abc").chunks = .ok abc := by
    refine (readFileData_eq_ok_iff (located_manifestOf _)).mpr
      ⟨fun _ => abc, fun hash hhash => ?_, rfl⟩
    cases List.mem_singleton.mp hhash
    refine fetchChunk_of_written ?_ (decryptChunk_abc _) (decompress_abc _)
    rw [targetOf_chunkImage]
    exact (Files.lookup_write _ _ _ _).trans (if_pos rfl)
  have hread : LocalRepository.readManifest
      (examplePlatform (manifestOf [chunkImage, abcFile "/data/abc"])).root
      (examplePlatform (manifestOf [chunkImage, abcFile "/data/abc"])).json
      chunkLost (overwriteRestore "/repo/chunks/64").sourceVersionId =
        .ok (manifestOf [chunkImage, abcFile "/data/abc"]) :=
    readManifest_versionStored _ _ _ "/repo/chunks/64"
  unfold RestoresVerified
  rw [run_runRestore hread, hplan, List.foldlM_cons, run_bind_of_ok (run_restoreFile_of_data
      (f := chunkImage) (hwritten _ _) hfirst),
    List.foldlM_cons, run_bind_of_ok (run_restoreFile_of_data
      (f := abcFile "/data/abc") (hwritten _ _) hsecond)]
  refine ⟨_, _, rfl, ?_⟩
  rw [allVerified_reported, allVerified_reported]
  simp [examplePlatform, chunkImage, abcFile, emptyReport]

/-- The condition is needed: restoring a file onto the place of a lost chunk
restores a file that the verification reports. -/
theorem not_predicts_chunkLost :
    Setting (examplePlatform (manifestOf [chunkImage, abcFile "/data/abc"]))
      (overwriteRestore "/repo/chunks/64")
      (manifestOf [chunkImage, abcFile "/data/abc"]) chunkLost ∧
    ¬ Predicts (examplePlatform (manifestOf [chunkImage, abcFile "/data/abc"]))
      (overwriteRestore "/repo/chunks/64")
      (manifestOf [chunkImage, abcFile "/data/abc"]) chunkLost := by
  have hsetting : Setting
      (examplePlatform (manifestOf [chunkImage, abcFile "/data/abc"]))
      (overwriteRestore "/repo/chunks/64")
      (manifestOf [chunkImage, abcFile "/data/abc"]) chunkLost :=
    setting_versionStored (by decide +kernel) (by decide +kernel)
      (by decide +kernel) (by decide +kernel)
  refine ⟨hsetting, fun hpredicts => ?_⟩
  let found : Circumstances :=
    { order := .asStored
      shuffle := .asStored
      startedAt := exampleTime
      completedAt := exampleTime }
  obtain ⟨report, hreport, hiff, _⟩ := hpredicts found
  obtain ⟨report', hreport', hfiles⟩ :=
    exists_verify_deep hsetting.read found
  cases hreport.symm.trans hreport'
  have hfound := hfiles.mp (hiff.mpr restoresVerified_chunkLost)
    (abcFile "/data/abc") (List.mem_cons_of_mem _ (List.mem_singleton.mpr rfl))
  exact not_intact_chunkLost _ (verifyFileHash_eq_true_iff.mp hfound)

end Example

end IntegrityVerifier

end Agent
end HyperBackup
