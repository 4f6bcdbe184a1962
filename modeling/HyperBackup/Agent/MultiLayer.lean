import HyperBackup.Agent.Domain
import Mathlib.Data.Finset.Card

/-!
# Verification in layers

`MultiLayerVerifier` compares a list of expected files with a list of actual
ones.  Every expected file goes through the layers SHA-256, BLAKE3 and metadata
up to the first one that fails; the sets of paths and the numbers of files are
two further layers for the lists as a whole.
-/

namespace HyperBackup
namespace Agent

open Lib

inductive LayerStatus
  | pass
  | fail
  | skipped
deriving DecidableEq, Repr

inductive VerificationLayer
  | l1Sha256
  | l2Blake3
  | l3Metadata
  | l4DirStructure
  | l5FileCount
deriving DecidableEq, Repr

structure FileMetadata where
  path : String
  size : Nat
  mtimeSecs : Int
  permissions : Nat
deriving DecidableEq

structure FileVerificationResult where
  path : String
  sha256Status : LayerStatus
  blake3Status : LayerStatus
  metadataStatus : LayerStatus
  failedLayer : Option VerificationLayer
  detail : String
deriving DecidableEq

def FileVerificationResult.isPass (result : FileVerificationResult) : Bool :=
  result.failedLayer.isNone

structure MultiLayerReport where
  files : List FileVerificationResult
  dirStructureStatus : LayerStatus
  fileCountStatus : LayerStatus
  expectedFileCount : Nat
  actualFileCount : Nat
  allPassed : Bool
  failedCount : Nat
  failedLayers : List VerificationLayer

def MultiLayerReport.passedCount (report : MultiLayerReport) : Nat :=
  (report.files.filter FileVerificationResult.isPass).length

namespace MultiLayerVerifier

section Verify

variable (expectedSha256 actualSha256 : HashMap String HashDigest)
variable (expectedBlake3 actualBlake3 : HashMap String HashDigest)

/-- `(Some(eh), Some(ah)) if eh == ah`. -/
def bothEqual (expectedHash actualHash : Option HashDigest) : Bool :=
  match expectedHash, actualHash with
  | some eh, some ah => eh == ah
  | _, _ => false

/-- The metadata that differs first, as the report puts it. -/
def metadataMismatch (expected actual : FileMetadata) : Option String :=
  let mismatch := fun (field expectedValue actualValue : String) =>
    field ++ " mismatch for " ++ expected.path ++ ": expected=" ++ expectedValue ++
      ", actual=" ++ actualValue
  if expected.size ≠ actual.size then
    some (mismatch "size" (toString expected.size) (toString actual.size))
  else if expected.mtimeSecs ≠ actual.mtimeSecs then
    some (mismatch "mtime" (toString expected.mtimeSecs) (toString actual.mtimeSecs))
  else if expected.permissions ≠ actual.permissions then
    some (mismatch "permissions" (toString expected.permissions)
      (toString actual.permissions))
  else none

def verifyFile (expected : FileMetadata) :
    Option FileMetadata → FileVerificationResult
  | none =>
      { path := expected.path
        sha256Status := .fail
        blake3Status := .skipped
        metadataStatus := .skipped
        failedLayer := some .l1Sha256
        detail := "file not found in actual: " ++ expected.path }
  | some actual =>
      if !bothEqual (expectedSha256.lookup expected.path)
          (actualSha256.lookup actual.path) then
        { path := expected.path
          sha256Status := .fail
          blake3Status := .skipped
          metadataStatus := .skipped
          failedLayer := some .l1Sha256
          detail := "SHA-256 mismatch for " ++ expected.path }
      else if !bothEqual (expectedBlake3.lookup expected.path)
          (actualBlake3.lookup actual.path) then
        { path := expected.path
          sha256Status := .pass
          blake3Status := .fail
          metadataStatus := .skipped
          failedLayer := some .l2Blake3
          detail := "BLAKE3 mismatch for " ++ expected.path }
      else
        match metadataMismatch expected actual with
        | some detail =>
            { path := expected.path
              sha256Status := .pass
              blake3Status := .pass
              metadataStatus := .fail
              failedLayer := some .l3Metadata
              detail := detail }
        | none =>
            { path := expected.path
              sha256Status := .pass
              blake3Status := .pass
              metadataStatus := .pass
              failedLayer := none
              detail := "all layers passed for " ++ expected.path }

def verifyDirStructure (expectedPaths actualPaths : List String) : LayerStatus :=
  if expectedPaths.toFinset = actualPaths.toFinset then .pass else .fail

def verifyFileCount (expected actual : Nat) : LayerStatus :=
  if expected = actual then .pass else .fail

/-- Add a layer unless it is there. -/
def pushLayer (layers : List VerificationLayer) (layer : VerificationLayer) :
    List VerificationLayer :=
  if layer ∈ layers then layers else layers ++ [layer]

def actualByPath (actualFiles : List FileMetadata) : HashMap String FileMetadata :=
  HashMap.collect (actualFiles.map fun f => (f.path, f))

/-- The loop over the expected files. -/
def verifyFiles (byPath : HashMap String FileMetadata)
    (expectedFiles : List FileMetadata) :
    List FileVerificationResult × List VerificationLayer :=
  expectedFiles.foldl (fun acc expected =>
    let result := verifyFile expectedSha256 actualSha256 expectedBlake3 actualBlake3
      expected (byPath.lookup expected.path)
    (acc.1 ++ [result], result.failedLayer.elim acc.2 (pushLayer acc.2))) ([], [])

def verify (expectedFiles actualFiles : List FileMetadata) : MultiLayerReport :=
  let (fileResults, failedLayers) :=
    verifyFiles expectedSha256 actualSha256 expectedBlake3 actualBlake3
      (actualByPath actualFiles) expectedFiles
  let dirStructureStatus := verifyDirStructure
    (expectedFiles.map FileMetadata.path) (actualFiles.map FileMetadata.path)
  let failedLayers :=
    if dirStructureStatus = .fail then pushLayer failedLayers .l4DirStructure
    else failedLayers
  let fileCountStatus := verifyFileCount expectedFiles.length actualFiles.length
  let failedLayers :=
    if fileCountStatus = .fail then pushLayer failedLayers .l5FileCount
    else failedLayers
  let failedCount := (fileResults.filter fun f => !f.isPass).length
  { files := fileResults
    dirStructureStatus := dirStructureStatus
    fileCountStatus := fileCountStatus
    expectedFileCount := expectedFiles.length
    actualFileCount := actualFiles.length
    allPassed := decide (failedCount = 0) && decide (dirStructureStatus = .pass) &&
      decide (fileCountStatus = .pass)
    failedCount := failedCount
    failedLayers := failedLayers }

/-- The hashes of a path agree on both sides. -/
def HashesAgree (expectedHashes actualHashes : HashMap String HashDigest)
    (path : String) : Prop :=
  ∃ h, expectedHashes.lookup path = some h ∧ actualHashes.lookup path = some h

/-- Size, modification time and permissions agree. -/
def MetadataAgrees (expected actual : FileMetadata) : Prop :=
  expected.size = actual.size ∧ expected.mtimeSecs = actual.mtimeSecs ∧
    expected.permissions = actual.permissions

/-- The layer is the first of the three at which an expected file fails; one
that is missing fails at the first. -/
def FailsFirst (actualFiles : List FileMetadata) (expected : FileMetadata) :
    VerificationLayer → Prop
  | .l1Sha256 =>
      (∀ a ∈ actualFiles, a.path ≠ expected.path) ∨
        ¬ HashesAgree expectedSha256 actualSha256 expected.path
  | .l2Blake3 =>
      (∃ a ∈ actualFiles, a.path = expected.path) ∧
        HashesAgree expectedSha256 actualSha256 expected.path ∧
        ¬ HashesAgree expectedBlake3 actualBlake3 expected.path
  | .l3Metadata =>
      HashesAgree expectedSha256 actualSha256 expected.path ∧
        HashesAgree expectedBlake3 actualBlake3 expected.path ∧
        ∃ a ∈ actualFiles, a.path = expected.path ∧ ¬ MetadataAgrees expected a
  | .l4DirStructure => False
  | .l5FileCount => False

/-- The paths of both lists are the same. -/
def SamePaths (expectedFiles actualFiles : List FileMetadata) : Prop :=
  ∀ path, path ∈ expectedFiles.map FileMetadata.path ↔
    path ∈ actualFiles.map FileMetadata.path

end Verify

section Files

variable {expectedSha256 actualSha256 : HashMap String HashDigest}
variable {expectedBlake3 actualBlake3 : HashMap String HashDigest}
variable {expectedFiles actualFiles : List FileMetadata}
variable {expected actual : FileMetadata} {layer : VerificationLayer}

theorem bothEqual_iff {hashes hashes' : HashMap String HashDigest} {path : String} :
    bothEqual (hashes.lookup path) (hashes'.lookup path) = true ↔
      HashesAgree hashes hashes' path := by
  unfold bothEqual HashesAgree
  cases hashes.lookup path with
  | none =>
      simp
  | some h =>
      cases hashes'.lookup path with
      | none =>
          simp
      | some h' =>
          simp only [beq_iff_eq, Option.some.injEq, exists_eq_left']
          exact eq_comm

theorem metadataMismatch_eq_none_iff :
    metadataMismatch expected actual = none ↔ MetadataAgrees expected actual := by
  unfold metadataMismatch MetadataAgrees
  by_cases hsize : expected.size = actual.size
  · by_cases hmtime : expected.mtimeSecs = actual.mtimeSecs
    · by_cases hpermissions : expected.permissions = actual.permissions
      · simp [hsize, hmtime, hpermissions]
      · simp [hsize, hmtime, hpermissions]
    · simp [hsize, hmtime]
  · simp [hsize]

/-- The file that is found for a path is the one that has it. -/
theorem lookup_actualByPath_eq_some_iff
    (hdistinct : (actualFiles.map FileMetadata.path).Nodup) {path : String} :
    (actualByPath actualFiles).lookup path = some actual ↔
      actual ∈ actualFiles ∧ actual.path = path := by
  constructor
  · intro h
    obtain ⟨f, hf, heq⟩ := List.mem_map.mp (HashMap.mem_of_lookup_collect h)
    obtain ⟨rfl, rfl⟩ := Prod.mk.inj heq
    exact ⟨hf, rfl⟩
  · rintro ⟨hmem, rfl⟩
    refine HashMap.lookup_collect_of_forall ?_ fun b hb => ?_
    · rw [List.map_map]
      exact List.mem_map_of_mem hmem
    · obtain ⟨f, hf, heq⟩ := List.mem_map.mp hb
      obtain ⟨hpath, rfl⟩ := Prod.mk.inj heq
      exact List.inj_on_of_nodup_map hdistinct hf hmem hpath

theorem lookup_actualByPath_eq_none_iff {path : String} :
    (actualByPath actualFiles).lookup path = none ↔
      ∀ a ∈ actualFiles, a.path ≠ path := by
  rw [← Option.not_isSome_iff_eq_none, actualByPath, HashMap.isSome_lookup_collect]
  simp

/-- A file passes iff it is there and agrees in everything. -/
theorem failedLayer_verifyFile_some :
    (verifyFile expectedSha256 actualSha256 expectedBlake3 actualBlake3
        expected (some actual)).failedLayer =
      if ¬ bothEqual (expectedSha256.lookup expected.path)
          (actualSha256.lookup actual.path) then some .l1Sha256
      else if ¬ bothEqual (expectedBlake3.lookup expected.path)
          (actualBlake3.lookup actual.path) then some .l2Blake3
      else if metadataMismatch expected actual = none then none
      else some .l3Metadata := by
  simp only [verifyFile]
  split
  · simp_all
  · split
    · simp_all
    · split
      · simp_all
      · simp_all

/-- The layer of the first of three conditions that does not hold. -/
theorem firstFailure_eq_some_iff {p q r : Prop} [Decidable p] [Decidable q]
    [Decidable r] :
    (if ¬ p then some VerificationLayer.l1Sha256
      else if ¬ q then some .l2Blake3
      else if r then none
      else some .l3Metadata) = some layer ↔
      layer = .l1Sha256 ∧ ¬ p ∨ layer = .l2Blake3 ∧ p ∧ ¬ q ∨
        layer = .l3Metadata ∧ p ∧ q ∧ ¬ r := by
  by_cases hp : p
  · by_cases hq : q
    · by_cases hr : r
      · simp [hp, hq, hr]
      · simp [hp, hq, hr, eq_comm]
    · simp [hp, hq, eq_comm]
  · simp [hp, eq_comm]

/-- A file that is missing fails at the first layer. -/
theorem failsFirst_of_missing
    (hmissing : ∀ a ∈ actualFiles, a.path ≠ expected.path) :
    FailsFirst expectedSha256 actualSha256 expectedBlake3 actualBlake3
      actualFiles expected layer ↔ layer = .l1Sha256 := by
  have hnone : ¬ ∃ a ∈ actualFiles, a.path = expected.path := by
    rintro ⟨a, ha, hpath⟩
    exact hmissing a ha hpath
  cases layer with
  | l1Sha256 =>
      simp only [FailsFirst]
      exact iff_of_true (Or.inl hmissing) trivial
  | l2Blake3 =>
      simp [FailsFirst, hnone]
  | l3Metadata =>
      simp only [FailsFirst, reduceCtorEq, iff_false]
      rintro ⟨-, -, a, ha, hpath, -⟩
      exact hmissing a ha hpath
  | l4DirStructure =>
      simp [FailsFirst]
  | l5FileCount =>
      simp [FailsFirst]

/-- A file that is there fails first where the comparison with it stops. -/
theorem failedLayer_verifyFile_some_iff
    (hdistinct : (actualFiles.map FileMetadata.path).Nodup)
    (hmem : actual ∈ actualFiles) (hpath : actual.path = expected.path) :
    (verifyFile expectedSha256 actualSha256 expectedBlake3 actualBlake3
        expected (some actual)).failedLayer = some layer ↔
      FailsFirst expectedSha256 actualSha256 expectedBlake3 actualBlake3
        actualFiles expected layer := by
  have hthere : ∃ a ∈ actualFiles, a.path = expected.path := ⟨actual, hmem, hpath⟩
  have hfalse : ¬ ∀ a ∈ actualFiles, a.path ≠ expected.path :=
    fun h => h actual hmem hpath
  have honly : (∃ a ∈ actualFiles, a.path = expected.path ∧
      ¬ MetadataAgrees expected a) ↔ ¬ MetadataAgrees expected actual := by
    constructor
    · rintro ⟨a, ha, hpath', hnot⟩
      rwa [List.inj_on_of_nodup_map hdistinct ha hmem (hpath'.trans hpath.symm)]
        at hnot
    · intro hnot
      exact ⟨actual, hmem, hpath, hnot⟩
  rw [failedLayer_verifyFile_some, hpath]
  classical
  simp only [bothEqual_iff, metadataMismatch_eq_none_iff]
  rw [firstFailure_eq_some_iff]
  cases layer with
  | l1Sha256 =>
      simp [FailsFirst, hfalse]
  | l2Blake3 =>
      simp [FailsFirst, hthere]
  | l3Metadata =>
      simp [FailsFirst, honly]
  | l4DirStructure =>
      simp [FailsFirst]
  | l5FileCount =>
      simp [FailsFirst]

/-- The result of a file names the layer at which it fails first. -/
theorem failedLayer_verifyFile_eq_some_iff
    (hdistinct : (actualFiles.map FileMetadata.path).Nodup) :
    (verifyFile expectedSha256 actualSha256 expectedBlake3 actualBlake3
        expected ((actualByPath actualFiles).lookup expected.path)).failedLayer =
      some layer ↔
    FailsFirst expectedSha256 actualSha256 expectedBlake3 actualBlake3
      actualFiles expected layer := by
  cases hfound : (actualByPath actualFiles).lookup expected.path with
  | none =>
      rw [failsFirst_of_missing (lookup_actualByPath_eq_none_iff.mp hfound)]
      exact Option.some_inj.trans eq_comm
  | some actual =>
      obtain ⟨hmem, hpath⟩ := (lookup_actualByPath_eq_some_iff hdistinct).mp hfound
      exact failedLayer_verifyFile_some_iff hdistinct hmem hpath

theorem mem_pushLayer {layers : List VerificationLayer} {layer' : VerificationLayer} :
    layer' ∈ pushLayer layers layer ↔ layer' ∈ layers ∨ layer' = layer := by
  unfold pushLayer
  split
  · rename_i hmem
    constructor
    · exact Or.inl
    · rintro (h | rfl)
      · exact h
      · exact hmem
  · simp

theorem nodup_pushLayer {layers : List VerificationLayer} (h : layers.Nodup) :
    (pushLayer layers layer).Nodup := by
  unfold pushLayer
  split
  · exact h
  · rename_i hnew
    exact List.nodup_append'.mpr ⟨h, List.nodup_singleton _,
      List.disjoint_singleton.mpr hnew⟩

/-- The loop has one result for every expected file and collects their failed layers. -/
theorem verifyFiles_spec
    (byPath : HashMap String FileMetadata) (expectedFiles : List FileMetadata) :
    let result := fun e => verifyFile expectedSha256 actualSha256 expectedBlake3
      actualBlake3 e (byPath.lookup e.path)
    let out := verifyFiles expectedSha256 actualSha256 expectedBlake3 actualBlake3
      byPath expectedFiles
    out.1 = expectedFiles.map result ∧ out.2.Nodup ∧
      ∀ layer, layer ∈ out.2 ↔
        ∃ e ∈ expectedFiles, (result e).failedLayer = some layer := by
  induction expectedFiles using List.reverseRecOn with
  | nil =>
      simp [verifyFiles]
  | append_singleton expectedFiles e ih =>
      obtain ⟨hfiles, hnodup, hmem⟩ := ih
      simp only [verifyFiles] at hfiles hnodup hmem ⊢
      rw [List.foldl_append, List.foldl_cons, List.foldl_nil, List.map_append]
      refine ⟨by rw [hfiles]; rfl, ?_, fun layer => ?_⟩
      · cases (verifyFile expectedSha256 actualSha256 expectedBlake3 actualBlake3 e
            (byPath.lookup e.path)).failedLayer with
        | none =>
            exact hnodup
        | some layer =>
            exact nodup_pushLayer hnodup
      · cases hlayer : (verifyFile expectedSha256 actualSha256 expectedBlake3
            actualBlake3 e (byPath.lookup e.path)).failedLayer with
        | none =>
            simp [hmem, hlayer, or_and_right, exists_or]
        | some layer' =>
            simp [mem_pushLayer, hmem, hlayer, or_and_right, exists_or, eq_comm]

/-- A file fails at no layer iff it is there and agrees in everything. -/
theorem forall_not_failsFirst_iff :
    (∀ layer, ¬ FailsFirst expectedSha256 actualSha256 expectedBlake3 actualBlake3
        actualFiles expected layer) ↔
      (∃ a ∈ actualFiles, a.path = expected.path) ∧
        ∀ a ∈ actualFiles, a.path = expected.path →
          HashesAgree expectedSha256 actualSha256 expected.path ∧
            HashesAgree expectedBlake3 actualBlake3 expected.path ∧
            MetadataAgrees expected a := by
  constructor
  · intro h
    have hfirst := not_or.mp (h .l1Sha256)
    have hsha := not_not.mp hfirst.2
    obtain ⟨a, ha, hpath⟩ : ∃ a ∈ actualFiles, a.path = expected.path := by
      simpa using hfirst.1
    refine ⟨⟨a, ha, hpath⟩, fun b hb hpath' => ?_⟩
    have hblake : HashesAgree expectedBlake3 actualBlake3 expected.path := by
      by_contra hnot
      exact h .l2Blake3 ⟨⟨a, ha, hpath⟩, hsha, hnot⟩
    refine ⟨hsha, hblake, ?_⟩
    by_contra hnot
    exact h .l3Metadata ⟨hsha, hblake, b, hb, hpath', hnot⟩
  · rintro ⟨⟨a, ha, hpath⟩, hall⟩ layer
    obtain ⟨hsha, hblake, -⟩ := hall a ha hpath
    cases layer with
    | l1Sha256 =>
        rintro (hmissing | hnot)
        · exact hmissing a ha hpath
        · exact hnot hsha
    | l2Blake3 =>
        rintro ⟨-, -, hnot⟩
        exact hnot hblake
    | l3Metadata =>
        rintro ⟨-, -, b, hb, hpath', hnot⟩
        exact hnot (hall b hb hpath').2.2
    | l4DirStructure =>
        exact id
    | l5FileCount =>
        exact id

theorem verifyDirStructure_eq_pass_iff :
    verifyDirStructure (expectedFiles.map FileMetadata.path)
        (actualFiles.map FileMetadata.path) = .pass ↔
      SamePaths expectedFiles actualFiles := by
  have hset : (expectedFiles.map FileMetadata.path).toFinset =
      (actualFiles.map FileMetadata.path).toFinset ↔
        SamePaths expectedFiles actualFiles := by
    simp only [Finset.ext_iff, List.mem_toFinset, SamePaths]
  rw [← hset]
  unfold verifyDirStructure
  split <;> simp_all

theorem verifyDirStructure_eq_fail_iff :
    verifyDirStructure (expectedFiles.map FileMetadata.path)
        (actualFiles.map FileMetadata.path) = .fail ↔
      ¬ SamePaths expectedFiles actualFiles := by
  rw [← verifyDirStructure_eq_pass_iff]
  unfold verifyDirStructure
  split <;> simp

/-- Lists of distinct paths with the same set of paths are equally long. -/
theorem length_eq_of_samePaths
    (hexpected : (expectedFiles.map FileMetadata.path).Nodup)
    (hactual : (actualFiles.map FileMetadata.path).Nodup)
    (h : SamePaths expectedFiles actualFiles) :
    expectedFiles.length = actualFiles.length := by
  have hperm := (List.perm_ext_iff_of_nodup hexpected hactual).mpr h
  simpa using hperm.length_eq

end Files

section Report

variable (expectedSha256 actualSha256 : HashMap String HashDigest)
variable (expectedBlake3 actualBlake3 : HashMap String HashDigest)
variable (expectedFiles actualFiles : List FileMetadata)

/-- The report says exactly where the lists differ. -/
structure Exact (report : MultiLayerReport) : Prop where
  allPassed : report.allPassed = true ↔
    SamePaths expectedFiles actualFiles ∧
      ∀ e ∈ expectedFiles, ∀ a ∈ actualFiles, a.path = e.path →
        HashesAgree expectedSha256 actualSha256 e.path ∧
          HashesAgree expectedBlake3 actualBlake3 e.path ∧ MetadataAgrees e a
  distinct : report.failedLayers.Nodup
  fileLayers : ∀ layer ∈ [VerificationLayer.l1Sha256, .l2Blake3, .l3Metadata],
    layer ∈ report.failedLayers ↔
      ∃ e ∈ expectedFiles, FailsFirst expectedSha256 actualSha256
        expectedBlake3 actualBlake3 actualFiles e layer
  dirStructure : VerificationLayer.l4DirStructure ∈ report.failedLayers ↔
    ¬ SamePaths expectedFiles actualFiles
  fileCount : VerificationLayer.l5FileCount ∈ report.failedLayers ↔
    expectedFiles.length ≠ actualFiles.length
  counts : report.failedCount + report.passedCount = expectedFiles.length

variable {expectedFiles actualFiles}

/-- What `verify` reports, layer by layer. -/
theorem mem_failedLayers_verify
    (hactual : (actualFiles.map FileMetadata.path).Nodup)
    (layer : VerificationLayer) :
    layer ∈ (verify expectedSha256 actualSha256 expectedBlake3 actualBlake3
        expectedFiles actualFiles).failedLayers ↔
      (∃ e ∈ expectedFiles, FailsFirst expectedSha256 actualSha256
          expectedBlake3 actualBlake3 actualFiles e layer) ∨
        (layer = .l4DirStructure ∧ ¬ SamePaths expectedFiles actualFiles) ∨
        (layer = .l5FileCount ∧ expectedFiles.length ≠ actualFiles.length) := by
  obtain ⟨-, -, hmem⟩ := @verifyFiles_spec expectedSha256 actualSha256 expectedBlake3
    actualBlake3 (actualByPath actualFiles) expectedFiles
  simp only [failedLayer_verifyFile_eq_some_iff hactual] at hmem
  have hcount : verifyFileCount expectedFiles.length actualFiles.length = .fail ↔
      expectedFiles.length ≠ actualFiles.length := by
    unfold verifyFileCount
    split <;> simp_all
  classical
  simp only [verify, verifyDirStructure_eq_fail_iff, hcount]
  rw [← hmem layer]
  by_cases hpaths : SamePaths expectedFiles actualFiles
  · by_cases hlength : expectedFiles.length = actualFiles.length
    · simp [hpaths, hlength]
    · simp [hpaths, hlength, mem_pushLayer]
  · by_cases hlength : expectedFiles.length = actualFiles.length
    · simp [hpaths, hlength, mem_pushLayer]
    · simp [hpaths, hlength, mem_pushLayer, or_assoc]

theorem nodup_failedLayers_verify :
    (verify expectedSha256 actualSha256 expectedBlake3 actualBlake3
      expectedFiles actualFiles).failedLayers.Nodup := by
  obtain ⟨-, hnodup, -⟩ := @verifyFiles_spec expectedSha256 actualSha256 expectedBlake3
    actualBlake3 (actualByPath actualFiles) expectedFiles
  simp only [verify]
  split
  · split
    · exact nodup_pushLayer (nodup_pushLayer hnodup)
    · exact nodup_pushLayer hnodup
  · split
    · exact nodup_pushLayer hnodup
    · exact hnodup

/-- Nothing is counted as failed iff every expected file fails at no layer. -/
theorem failedCount_verify_eq_zero_iff
    (hactual : (actualFiles.map FileMetadata.path).Nodup) :
    (verify expectedSha256 actualSha256 expectedBlake3 actualBlake3
        expectedFiles actualFiles).failedCount = 0 ↔
      ∀ e ∈ expectedFiles, ∀ layer, ¬ FailsFirst expectedSha256 actualSha256
        expectedBlake3 actualBlake3 actualFiles e layer := by
  obtain ⟨hfiles, -, -⟩ := @verifyFiles_spec expectedSha256 actualSha256 expectedBlake3
    actualBlake3 (actualByPath actualFiles) expectedFiles
  simp only [verify, hfiles, List.length_eq_zero_iff, List.filter_eq_nil_iff,
    List.forall_mem_map]
  refine forall₂_congr fun e _ => ?_
  simp only [← failedLayer_verifyFile_eq_some_iff hactual,
    FileVerificationResult.isPass]
  rw [Bool.not_eq_true', Bool.not_eq_false, Option.isNone_iff_eq_none,
    Option.eq_none_iff_forall_ne_some]

theorem verifyFileCount_eq_pass_iff {expectedCount actualCount : Nat} :
    verifyFileCount expectedCount actualCount = .pass ↔
      expectedCount = actualCount := by
  unfold verifyFileCount
  split <;> simp_all

/-- What the flag of the whole report says. -/
theorem allPassed_verify_iff :
    (verify expectedSha256 actualSha256 expectedBlake3 actualBlake3
        expectedFiles actualFiles).allPassed = true ↔
      (verify expectedSha256 actualSha256 expectedBlake3 actualBlake3
        expectedFiles actualFiles).failedCount = 0 ∧
      SamePaths expectedFiles actualFiles ∧
      expectedFiles.length = actualFiles.length := by
  simp only [verify, Bool.and_eq_true, decide_eq_true_eq,
    verifyDirStructure_eq_pass_iff, verifyFileCount_eq_pass_iff, and_assoc]

theorem failedCount_add_passedCount_verify :
    (verify expectedSha256 actualSha256 expectedBlake3 actualBlake3
        expectedFiles actualFiles).failedCount +
      (verify expectedSha256 actualSha256 expectedBlake3 actualBlake3
        expectedFiles actualFiles).passedCount = expectedFiles.length := by
  obtain ⟨hfiles, -, -⟩ := @verifyFiles_spec expectedSha256 actualSha256
    expectedBlake3 actualBlake3 (actualByPath actualFiles) expectedFiles
  have hsplit := List.length_eq_length_filter_add
    (l := (verify expectedSha256 actualSha256 expectedBlake3 actualBlake3
      expectedFiles actualFiles).files) FileVerificationResult.isPass
  have hlength : (verify expectedSha256 actualSha256 expectedBlake3 actualBlake3
      expectedFiles actualFiles).files.length = expectedFiles.length := by
    simp only [verify, hfiles, List.length_map]
  have hfailed : (verify expectedSha256 actualSha256 expectedBlake3 actualBlake3
      expectedFiles actualFiles).failedCount =
      ((verify expectedSha256 actualSha256 expectedBlake3 actualBlake3
        expectedFiles actualFiles).files.filter fun f => !f.isPass).length := rfl
  rw [MultiLayerReport.passedCount]
  omega

/-- `verify` is exact on lists with distinct paths. -/
theorem verify_exact
    (hexpected : (expectedFiles.map FileMetadata.path).Nodup)
    (hactual : (actualFiles.map FileMetadata.path).Nodup) :
    Exact expectedSha256 actualSha256 expectedBlake3 actualBlake3
      expectedFiles actualFiles
      (verify expectedSha256 actualSha256 expectedBlake3 actualBlake3
        expectedFiles actualFiles) where
  allPassed := by
    rw [allPassed_verify_iff, failedCount_verify_eq_zero_iff _ _ _ _ hactual]
    simp only [forall_not_failsFirst_iff]
    constructor
    · rintro ⟨hall, hpaths, -⟩
      exact ⟨hpaths, fun e he => (hall e he).2⟩
    · rintro ⟨hpaths, hall⟩
      refine ⟨fun e he => ⟨?_, hall e he⟩, hpaths,
        length_eq_of_samePaths hexpected hactual hpaths⟩
      exact List.mem_map.mp ((hpaths e.path).mp (List.mem_map_of_mem he))
  distinct := nodup_failedLayers_verify _ _ _ _
  fileLayers := by
    intro layer hlayer
    rw [mem_failedLayers_verify _ _ _ _ hactual]
    have hne : layer ≠ .l4DirStructure ∧ layer ≠ .l5FileCount := by
      constructor <;> rintro rfl <;> simp at hlayer
    simp [hne]
  dirStructure := by
    rw [mem_failedLayers_verify _ _ _ _ hactual]
    simp [FailsFirst]
  fileCount := by
    rw [mem_failedLayers_verify _ _ _ _ hactual]
    simp [FailsFirst]
  counts := failedCount_add_passedCount_verify _ _ _ _

/-- One file without BLAKE3 hashes, one that is missing and one that is too many. -/
theorem verify_exact_three :
    Exact ((∅ : HashMap String HashDigest).insert "a" zeroDigest)
      ((∅ : HashMap String HashDigest).insert "a" zeroDigest) ∅ ∅
      [⟨"a", 1, 0, 420⟩, ⟨"b", 2, 0, 420⟩] [⟨"a", 1, 0, 420⟩, ⟨"c", 3, 0, 420⟩]
      (verify ((∅ : HashMap String HashDigest).insert "a" zeroDigest)
        ((∅ : HashMap String HashDigest).insert "a" zeroDigest) ∅ ∅
        [⟨"a", 1, 0, 420⟩, ⟨"b", 2, 0, 420⟩] [⟨"a", 1, 0, 420⟩, ⟨"c", 3, 0, 420⟩]) :=
  verify_exact _ _ _ _ (by decide) (by decide)

end Report

end MultiLayerVerifier
end Agent
end HyperBackup
