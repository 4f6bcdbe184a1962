import HyperBackup.Agent.BackupRestore
import HyperBackup.Agent.RestoreReport
import HyperBackup.Agent.VersionListing

/-!
# Checking the consistency of a repository, and repairing it

The checker lists the versions, reads their manifests and notes which chunks
they refer to.  A manifest that cannot be read makes its version incomplete, and
its chunks are not noted.  Of the candidates for orphans, those that were not
noted are deleted.

Reads can fail in the run although the files are fine.  `Faults` says which do.
The main result says exactly when the repair leaves the chunks of every intact
version where they are.
-/

namespace HyperBackup
namespace Agent

open Lib LocalRepository

structure ConsistencyReport where
  checkedVersions : List VersionId
  healthyVersions : List VersionId
  incompleteVersions : List VersionId
  orphanChunks : List ChunkHash
  missingChunks : List (VersionId × ChunkHash)

structure RepairResult where
  orphanChunksDeleted : Nat
  orphanDeleteFailures : Nat
  versionsQuarantined : Nat

/-- What happens to the read of a manifest file while the versions are listed. -/
inductive ListingFault
  | unreadable (e : RepoError)
  | garbled

/-- What goes wrong in a run: listing the directory, reading a file of it,
reading the manifest of the version at a place of the list, and removing a
chunk. -/
structure Faults where
  directory : Option RepoError
  listing : String → Option ListingFault
  manifest : Nat → Option RepoError
  removal : ChunkHash → Option RepoError

/-- Nothing goes wrong. -/
def Faults.none : Faults where
  directory := Option.none
  listing := fun _ => Option.none
  manifest := fun _ => Option.none
  removal := fun _ => Option.none

namespace ConsistencyChecker

section Operations

variable (root : String) (json : ManifestJson) (parseStr : String → Option Uuid)
variable (order : IterOrder (String × Bytes)) (faults : Faults)

/-- The version that the name of a file stands for. -/
def versionIdOf (path : String) : Option Uuid :=
  (Path.childName (Path.join root "manifests") path).bind fun filename =>
    (Path.stripEnd ".manifest" filename).bind parseStr

/-- A file of the directory is added to the list if it holds a manifest. -/
def listFile (versions : List VersionSummary) (path : String) (data : Bytes) :
    Except RepoError (List VersionSummary) :=
  match versionIdOf root parseStr path with
  | none => .ok versions
  | some uuid =>
      match faults.listing path with
      | some (.unreadable e) => .error e
      | some .garbled => .ok versions
      | none =>
          match json.fromSlice data with
          | .ok manifest => .ok (versions ++ [versionSummary uuid manifest])
          | .error _ => .ok versions

/-- The listing of the repository when reads can fail. -/
def listVersionsUnder (files : Files) : Except RepoError (List VersionSummary) :=
  match faults.directory with
  | some e => .error e
  | none =>
      (order.arrange (HashMap.toList files)).foldlM
        (fun versions e => listFile root json parseStr faults versions e.1 e.2) []

/-- The read of the manifest of the version at a place of the list. -/
def readManifestUnder (files : Files) (i : Nat) (versionId : VersionId) :
    Except RepoError Manifest :=
  match faults.manifest i with
  | some e => .error e
  | none => readManifest root json files versionId

/-- What the check has found so far. -/
structure Findings where
  checked : List VersionId
  healthy : List VersionId
  incomplete : List VersionId
  missing : List (VersionId × ChunkHash)
  referenced : List ChunkHash

def Findings.start : Findings where
  checked := []
  healthy := []
  incomplete := []
  missing := []
  referenced := []

/-- Check the version at a place of the list. -/
def checkVersion (files : Files) (found : Findings) (summary : VersionSummary)
    (i : Nat) : Findings :=
  let versionId : VersionId := ⟨summary.versionId⟩
  match readManifestUnder root json faults files i versionId with
  | .error _ =>
      { found with
        checked := found.checked ++ [versionId]
        incomplete := found.incomplete ++ [versionId] }
  | .ok manifest =>
      let hashes := manifest.chunkRefs.map ChunkReference.hash
      let lost := hashes.filter fun h => !chunkExists root files h
      { checked := found.checked ++ [versionId]
        healthy := if lost = [] then found.healthy ++ [versionId] else found.healthy
        incomplete :=
          if lost = [] then found.incomplete else found.incomplete ++ [versionId]
        missing := found.missing ++ lost.map fun h => (versionId, h)
        referenced := found.referenced ++ hashes }

def checkVersions (files : Files) (versions : List VersionSummary) : Findings :=
  versions.zipIdx.foldl
    (fun found e => checkVersion root json faults files found e.1 e.2) .start

def reportOf (candidateOrphans : List ChunkHash) (files : Files)
    (found : Findings) : ConsistencyReport where
  checkedVersions := found.checked
  healthyVersions := found.healthy
  incompleteVersions := found.incomplete
  orphanChunks := candidateOrphans.filter fun h =>
    h ∉ found.referenced && chunkExists root files h
  missingChunks := found.missing

def check (candidateOrphans : List ChunkHash) (files : Files) :
    Except RepoError ConsistencyReport :=
  (listVersionsUnder root json parseStr order faults files).map fun versions =>
    reportOf root candidateOrphans files (checkVersions root json faults files versions)

/-- Delete an orphan; the files and the counts of successes and failures. -/
def deleteOrphan (acc : Files × Nat × Nat) (hash : ChunkHash) : Files × Nat × Nat :=
  match findChunk root acc.1 hash with
  | .error _ => (acc.1, acc.2.1, acc.2.2 + 1)
  | .ok location =>
      match faults.removal hash with
      | some _ => (acc.1, acc.2.1, acc.2.2 + 1)
      | none => (deleteChunk root location acc.1, acc.2.1 + 1, acc.2.2)

def repair (report : ConsistencyReport) (files : Files) : RepairResult × Files :=
  let acc := report.orphanChunks.foldl (deleteOrphan root faults) (files, 0, 0)
  ({ orphanChunksDeleted := acc.2.1
     orphanDeleteFailures := acc.2.2
     versionsQuarantined := report.incompleteVersions.length }, acc.1)

/-- The result of the check and of the repair, and the files afterwards. -/
def checkAndRepair (candidateOrphans : List ChunkHash) (files : Files) :
    Except RepoError (ConsistencyReport × RepairResult) × Files :=
  match check root json parseStr order faults candidateOrphans files with
  | .error e => (.error e, files)
  | .ok report =>
      let outcome := repair root faults report files
      (.ok (report, outcome.1), outcome.2)

end Operations

section Specs

variable {root : String} {json : ManifestJson} {parseStr : String → Option Uuid}
variable {order : IterOrder (String × Bytes)} {faults : Faults} {files : Files}

theorem listFile_of_listed {path : String} (h : faults.listing path = none)
    (versions : List VersionSummary) (data : Bytes) :
    listFile root json parseStr faults versions path data =
      .ok (versions ++ (versionOf root json parseStr path data).toList) := by
  have hversion : versionOf root json parseStr path data =
      (versionIdOf root parseStr path).bind fun uuid =>
        (json.fromSlice data).toOption.map (versionSummary uuid) := by
    simp only [versionOf, versionIdOf, Option.bind_assoc]
  rw [hversion]
  unfold listFile
  cases versionIdOf root parseStr path with
  | none =>
      simp
  | some uuid =>
      cases hjson : json.fromSlice data with
      | error e =>
          simp [h, Except.toOption]
      | ok manifest =>
          simp [h, Except.toOption]

/-- If the directory and its files are read, the versions are those that the
repository lists. -/
theorem listVersionsUnder_of_listed (hdirectory : faults.directory = none)
    (hlisting : ∀ path, faults.listing path = none) :
    listVersionsUnder root json parseStr order faults files =
      .ok (listVersions root json parseStr order files) := by
  have hfold : ∀ (entries : List (String × Bytes)) (versions : List VersionSummary),
      entries.foldlM (fun versions e =>
        listFile root json parseStr faults versions e.1 e.2) versions =
      .ok (versions ++ entries.filterMap fun e =>
        versionOf root json parseStr e.1 e.2) := by
    intro entries
    induction entries with
    | nil =>
        intro versions
        rw [List.filterMap_nil, List.append_nil]
        rfl
    | cons e entries ih =>
        intro versions
        rw [List.foldlM_cons, listFile_of_listed (hlisting e.1)]
        change entries.foldlM _ _ = _
        rw [ih, List.append_assoc]
        cases hversion : versionOf root json parseStr e.1 e.2 with
        | none =>
            simp [hversion]
        | some summary =>
            simp [hversion]
  rw [listVersionsUnder, hdirectory]
  exact hfold _ []

/-- A manifest that is read in the run refers to the chunk. -/
def Referenced (root : String) (json : ManifestJson) (faults : Faults)
    (files : Files) (versions : List VersionSummary) (h : ChunkHash) : Prop :=
  ∃ i summary manifest, versions[i]? = some summary ∧
    readManifestUnder root json faults files i ⟨summary.versionId⟩ = .ok manifest ∧
    h ∈ manifest.chunkRefs.map ChunkReference.hash

theorem mem_referenced_checkVersion {found : Findings} {summary : VersionSummary}
    {i : Nat} {h : ChunkHash} :
    h ∈ (checkVersion root json faults files found summary i).referenced ↔
      h ∈ found.referenced ∨ ∃ manifest,
        readManifestUnder root json faults files i ⟨summary.versionId⟩ = .ok manifest ∧
          h ∈ manifest.chunkRefs.map ChunkReference.hash := by
  cases hread : readManifestUnder root json faults files i ⟨summary.versionId⟩ with
  | error e =>
      simp [checkVersion, hread]
  | ok manifest =>
      simp [checkVersion, hread]

theorem mem_referenced_checkVersions {versions : List VersionSummary} {h : ChunkHash} :
    h ∈ (checkVersions root json faults files versions).referenced ↔
      Referenced root json faults files versions h := by
  have hfold : ∀ (entries : List (VersionSummary × Nat)) (found : Findings),
      h ∈ (entries.foldl (fun found e =>
          checkVersion root json faults files found e.1 e.2) found).referenced ↔
        h ∈ found.referenced ∨ ∃ e ∈ entries, ∃ manifest,
          readManifestUnder root json faults files e.2 ⟨e.1.versionId⟩ =
              .ok manifest ∧
            h ∈ manifest.chunkRefs.map ChunkReference.hash := by
    intro entries
    induction entries with
    | nil =>
        intro found
        simp
    | cons e entries ih =>
        intro found
        rw [List.foldl_cons, ih, mem_referenced_checkVersion, or_assoc,
          List.exists_mem_cons_iff]
  rw [checkVersions, hfold, Referenced]
  constructor
  · rintro (hstart | ⟨e, he, manifest, hread, hh⟩)
    · cases hstart
    · exact ⟨e.2, e.1, manifest, List.mem_zipIdx_iff_getElem?.mp he, hread, hh⟩
  · rintro ⟨i, summary, manifest, hi, hread, hh⟩
    exact Or.inr ⟨(summary, i), List.mem_zipIdx_iff_getElem?.mpr hi, manifest, hread, hh⟩

theorem lookup_deleteOrphan (acc : Files × Nat × Nat) (hash h : ChunkHash) :
    (deleteOrphan root faults acc hash).1.lookup (chunkPath root h) =
      if h = hash ∧ faults.removal hash = none then none
      else acc.1.lookup (chunkPath root h) := by
  cases hfind : findChunk root acc.1 hash with
  | error e =>
      -- The file is not there, so it makes no difference that it is not deleted.
      have hnone : acc.1.lookup (chunkPath root hash) = none := by
        by_contra hsome
        have hexists : chunkExists root acc.1 hash := Option.ne_none_iff_isSome.mp hsome
        rw [findChunk, if_pos hexists] at hfind
        cases hfind
      simp only [deleteOrphan, hfind]
      split
      · next hsame =>
          rw [hsame.1, hnone]
      · rfl
  | ok location =>
      obtain ⟨rfl, -⟩ := findChunk_eq_ok hfind
      cases hremoval : faults.removal hash with
      | some e =>
          simp [deleteOrphan, hfind, hremoval]
      | none =>
          have hpath : chunkPath root h = locationPath root (chunkLocation hash) ↔
              h = hash :=
            chunkPath_injective.eq_iff
          simp [deleteOrphan, hfind, hremoval, deleteChunk, hpath]

/-- An orphan is gone after the repair unless it cannot be removed; all other
chunks stay. -/
theorem lookup_repair (report : ConsistencyReport) (files : Files) (h : ChunkHash) :
    (repair root faults report files).2.lookup (chunkPath root h) =
      if h ∈ report.orphanChunks ∧ faults.removal h = none then none
      else files.lookup (chunkPath root h) := by
  have hfold : ∀ (orphans : List ChunkHash) (acc : Files × Nat × Nat),
      (orphans.foldl (deleteOrphan root faults) acc).1.lookup (chunkPath root h) =
        if h ∈ orphans ∧ faults.removal h = none then none
        else acc.1.lookup (chunkPath root h) := by
    intro orphans
    induction orphans with
    | nil =>
        intro acc
        simp
    | cons hash orphans ih =>
        intro acc
        rw [List.foldl_cons, ih, lookup_deleteOrphan]
        by_cases hsame : h = hash
        · subst hsame
          by_cases hremoval : faults.removal h = none
          · simp [hremoval]
          · simp [hremoval]
        · simp [hsame]
  exact hfold report.orphanChunks (files, 0, 0)

end Specs

section Harm

variable (platform : Platform) (parseStr : String → Option Uuid)
variable (order : IterOrder (String × Bytes)) (faults : Faults)

/-- The manifest of the version can be read, and every chunk of it leads to data
with its hash. -/
def VersionIntact (files : Files) (v : VersionId) (m : Manifest) : Prop :=
  readManifest platform.root platform.json files v = .ok m ∧
    ∀ h ∈ m.chunkRefs.map ChunkReference.hash,
      BackupRestore.LeadsTo platform Set.univ files (chunkLocation h) h

/-- The chunk files of every intact version are the same before and after. -/
def NeverHarms (candidates : List ChunkHash) (files : Files) : Prop :=
  ∀ v m, VersionIntact platform files v m →
    ∀ h ∈ m.chunkRefs.map ChunkReference.hash,
      (checkAndRepair platform.root platform.json parseStr order faults candidates
        files).2.lookup (chunkPath platform.root h) =
          files.lookup (chunkPath platform.root h)

/-- Every candidate that an intact version needs is noted from a manifest that is
read, or cannot be removed; or the versions cannot be listed at all. -/
def Noted (candidates : List ChunkHash) (files : Files) : Prop :=
  ∀ versions,
    listVersionsUnder platform.root platform.json parseStr order faults files =
      .ok versions →
    ∀ v m, VersionIntact platform files v m →
      ∀ h ∈ m.chunkRefs.map ChunkReference.hash, h ∈ candidates →
        Referenced platform.root platform.json faults files versions h ∨
          faults.removal h ≠ none

variable {platform} {parseStr} {order} {faults}
variable {candidates : List ChunkHash} {files : Files}

/-- A chunk that leads to data has a file. -/
theorem chunkExists_of_leadsTo {h : ChunkHash}
    (hleads : BackupRestore.LeadsTo platform Set.univ files (chunkLocation h) h) :
    chunkExists platform.root files h := by
  obtain ⟨data, -, hfetch, -⟩ := hleads
  by_contra hexists
  have hnone : files.lookup (locationPath platform.root (chunkLocation h)) = none :=
    Option.not_isSome_iff_eq_none.mp hexists
  simp only [Restore.fetchChunk, readChunk, readFile, hnone] at hfetch
  cases hfetch

/-- What the report says if the versions are listed. -/
def reportUnder (platform : Platform) (faults : Faults) (candidates : List ChunkHash)
    (files : Files) (versions : List VersionSummary) : ConsistencyReport :=
  reportOf platform.root candidates files
    (checkVersions platform.root platform.json faults files versions)

theorem mem_orphanChunks {versions : List VersionSummary} {h : ChunkHash} :
    h ∈ (reportUnder platform faults candidates files versions).orphanChunks ↔
      h ∈ candidates ∧
        ¬ Referenced platform.root platform.json faults files versions h ∧
        chunkExists platform.root files h := by
  rw [reportUnder, reportOf, List.mem_filter, Bool.and_eq_true, decide_eq_true_eq,
    mem_referenced_checkVersions]

/-- What the repair deletes if the versions are listed. -/
theorem lookup_checkAndRepair {versions : List VersionSummary}
    (hlist : listVersionsUnder platform.root platform.json parseStr order faults files =
      .ok versions) (h : ChunkHash) :
    (checkAndRepair platform.root platform.json parseStr order faults candidates
      files).2.lookup (chunkPath platform.root h) =
      if h ∈ (reportUnder platform faults candidates files versions).orphanChunks ∧
          faults.removal h = none then none
      else files.lookup (chunkPath platform.root h) := by
  have hcheck : check platform.root platform.json parseStr order faults candidates
      files = .ok (reportUnder platform faults candidates files versions) := by
    rw [check, hlist]
    rfl
  rw [checkAndRepair, hcheck]
  exact lookup_repair _ files h

/-- A candidate that is needed and not noted would be deleted. -/
theorem noted_of_neverHarms
    (hkept : NeverHarms platform parseStr order faults candidates files) :
    Noted platform parseStr order faults candidates files := by
  intro versions hlist v m hintact h hmem hcandidate
  have hexists := chunkExists_of_leadsTo (hintact.2 h hmem)
  have hafter := hkept v m hintact h hmem
  rw [lookup_checkAndRepair hlist] at hafter
  by_contra hnot
  rw [not_or, not_not] at hnot
  rw [if_pos ⟨mem_orphanChunks.mpr ⟨hcandidate, hnot.1, hexists⟩, hnot.2⟩] at hafter
  rw [chunkExists, ← hafter] at hexists
  cases hexists

/-- The repair harms no intact version exactly if what they need is noted. -/
theorem neverHarms_iff_noted (platform : Platform) (parseStr : String → Option Uuid)
    (order : IterOrder (String × Bytes)) (faults : Faults)
    (candidates : List ChunkHash) (files : Files) :
    NeverHarms platform parseStr order faults candidates files ↔
      Noted platform parseStr order faults candidates files := by
  refine ⟨noted_of_neverHarms, ?_⟩
  intro hnoted v m hintact h hmem
  cases hlist : listVersionsUnder platform.root platform.json parseStr order
      faults files with
  | error e =>
      rw [checkAndRepair, check, hlist]
      rfl
  | ok versions =>
      rw [lookup_checkAndRepair hlist, if_neg]
      rintro ⟨horphan, hremoval⟩
      obtain ⟨hcandidate, hnot, -⟩ := mem_orphanChunks.mp horphan
      rcases hnoted versions hlist v m hintact h hmem hcandidate with hread | hkept
      · exact hnot hread
      · exact hkept hremoval

end Harm

section Example

open BackupEngine BackupRestore RestoreReport

/-- A version of one file with one chunk. -/
def abcVersion : Manifest :=
  { manifestOf [abcFile "/data/abc"] with
    chunkRefs := [{
      hash := abcHash
      versionId := (exampleExecution 4).versionId
      filePath := "/data/abc"
      offset := 0 }] }

/-- A repository with that version. -/
def abcRepository : Files :=
  Files.write
    (Files.write ∅ (chunkPath "/repo" abcHash) (encodeEncryptedChunk abcEncrypted))
    (manifestPath "/repo" (exampleExecution 4).versionId)
    (Json.manifestBytes abcVersion)

/-- No manifest can be read while the versions are checked. -/
def manifestsUnread : Faults :=
  { Faults.none with
    manifest := fun _ => some (.io "Input/output error (os error 5)") }

/-- The identifiers among which the file of that version is looked up. -/
def parseAbcVersion (text : String) : Option Uuid :=
  if text = uuidText (exampleExecution 4).versionId.uuid then
    some (exampleExecution 4).versionId.uuid
  else none

theorem readManifest_abcRepository :
    readManifest "/repo" (exampleJson abcVersion) abcRepository
      (exampleExecution 4).versionId = .ok abcVersion := by
  have hlookup : abcRepository.lookup
      (manifestPath "/repo" (exampleExecution 4).versionId) =
        some (Json.manifestBytes abcVersion) := by
    simp only [abcRepository, Files.lookup_write, if_pos]
  have hjson : (exampleJson abcVersion).fromSlice (Json.manifestBytes abcVersion) =
      .ok abcVersion := by
    simp only [exampleJson, if_pos]
  exact readManifest_eq_ok hlookup hjson

theorem lookup_chunkPath_abcRepository :
    abcRepository.lookup (chunkPath "/repo" abcHash) =
      some (encodeEncryptedChunk abcEncrypted) := by
  simp only [abcRepository, Files.lookup_write,
    if_neg (manifestPath_ne_chunkPath _ abcHash).symm, if_pos]

/-- The manifest is there and the chunk leads to its data. -/
theorem versionIntact_abcVersion :
    VersionIntact (examplePlatform abcVersion) abcRepository
      (exampleExecution 4).versionId abcVersion := by
  refine ⟨readManifest_abcRepository, fun h hh => ?_⟩
  obtain rfl : h = abcHash := List.mem_singleton.mp hh
  exact ⟨abc, Set.mem_univ abc,
    fetchChunk_of_written lookup_chunkPath_abcRepository (decryptChunk_abc _)
      (decompress_abc _), by simp only [examplePlatform, if_pos]⟩

/-- A manifest that cannot be read at that moment costs its version the chunk. -/
theorem not_neverHarms_manifestsUnread :
    ¬ NeverHarms (examplePlatform abcVersion) parseAbcVersion .asStored
      manifestsUnread [abcHash] abcRepository := by
  intro hkept
  have hlist : listVersionsUnder "/repo" (exampleJson abcVersion) parseAbcVersion
      .asStored manifestsUnread abcRepository =
        .ok (listVersions "/repo" (exampleJson abcVersion) parseAbcVersion .asStored
          abcRepository) :=
    listVersionsUnder_of_listed rfl fun _ => rfl
  rcases noted_of_neverHarms hkept _ hlist _ _ versionIntact_abcVersion abcHash
    List.mem_cons_self List.mem_cons_self with hread | hremoval
  · obtain ⟨i, summary, manifest, -, hread, -⟩ := hread
    cases hread
  · exact hremoval rfl

end Example

end ConsistencyChecker
end Agent
end HyperBackup
