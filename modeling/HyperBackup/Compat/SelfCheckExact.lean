import HyperBackup.Compat.SelfCheck

/-!
# What the check of a compatible repository finds

The check is meant to be exact for any contents of the directories: nothing is found
exactly if the repository is in order, and a missing chunk is found once, however many
versions refer to it and however often, with just these versions.

It takes every name in a directory for chunks for the name of a file.  So the check is
exact unless there are directories in the wrong places: one at the path of a referenced
chunk cannot be read, and one whose name only looks like that of a chunk file is found
in a repository that is in order.
-/

namespace HyperBackup
namespace Compat
namespace CompatibleRepository

open Lib Lib.Program Agent

section Definitions

variable (json : CompatJson) (repo : CompatibleRepository)

/-- The version has a file in `dlists` that parses to the manifest. -/
def HasManifest (vid : String) (manifest : CompatibilityManifest) : Prop :=
  ∃ data, repo.dlists.lookup (dlistName vid) = some data ∧
    json.manifestFromSlice data = .ok manifest

/-- The manifest of the version refers to the chunk, from a file or as a reference. -/
def References (vid : String) (hash : ChunkHash) : Prop :=
  ∃ manifest, HasManifest json repo vid manifest ∧
    (hash ∈ fileChunks manifest ∨ hash ∈ refChunks manifest)

/-- All manifests parse and agree with their own references, every referenced chunk has
its file with its hash, and every chunk file is of a referenced chunk. -/
structure InOrder : Prop where
  parsed : ∀ vid data, repo.dlists.lookup (dlistName vid) = some data →
    ∃ manifest, json.manifestFromSlice data = .ok manifest
  sameChunks : ∀ vid manifest, HasManifest json repo vid manifest →
    ∀ hash, hash ∈ fileChunks manifest ↔ hash ∈ refChunks manifest
  stored : ∀ vid hash, References json repo vid hash →
    ∃ data, repo.chunkEntry hash = some (.file data) ∧ Sha256.hash data = hash.digest
  known : ∀ bucket name data, repo.dblock bucket (name ++ ".dblock") = some (.file data) →
    ∃ hash, hashOfName name = some hash ∧ ∃ vid, References json repo vid hash

/-- The findings on missing chunks are one for each chunk that is referenced and has no
file, with the versions that refer to it. -/
def FindsMissing (findings : List DamageFinding) : Prop :=
  ∃ missing : List ChunkHash, missing.Nodup ∧
    (∀ hash, hash ∈ missing ↔ (∃ vid, References json repo vid hash) ∧
      ∀ data, repo.chunkEntry hash ≠ some (.file data)) ∧
    List.Forall₂ (fun hash finding =>
        finding.location = {
          bucket := some (bucketOf hash), path := dblockName hash, versionId := none } ∧
        ∀ vid, vid ∈ finding.affectedVersions ↔ References json repo vid hash)
      missing (findings.filter fun f => f.damageType = .chunkMissing)

/-- The check ends with a report, which has no finding exactly if the repository is in
order, and which lists the missing chunks. -/
def ChecksExactly (orders : CheckOrders) (now : DateTime) : Prop :=
  ∃ report, selfCheck json orders now repo = .ok report ∧
    (report.findings = [] ↔ InOrder json repo) ∧
    FindsMissing json repo report.findings

/-- No directory is at the path of a referenced chunk; and if the repository is in order,
the directories with the name of a chunk file have that of a referenced chunk. -/
structure DirectoriesHarmless : Prop where
  notAtChunk : ∀ vid hash, References json repo vid hash →
    repo.chunkEntry hash ≠ some .directory
  known : InOrder json repo →
    ∀ bucket name, repo.dblock bucket (name ++ ".dblock") = some .directory →
      ∃ hash, hashOfName name = some hash ∧ ∃ vid, References json repo vid hash

end Definitions

section Passes

variable {json : CompatJson} {orders : CheckOrders} {repo : CompatibleRepository}

/-- A manifest file is in order if it parses and its two sets of chunks agree. -/
theorem dlistFindings_eq_nil_iff {vid : String} {data : Bytes} :
    dlistFindings json (dlistName vid) data = [] ↔
      ∃ manifest, json.manifestFromSlice data = .ok manifest ∧
        ∀ h, h ∈ fileChunks manifest ↔ h ∈ refChunks manifest := by
  have hstrip : Path.stripEnd ".dlist" (dlistName vid) = some vid :=
    Path.stripEnd_append _ _
  simp only [dlistFindings, hstrip]
  cases json.manifestFromSlice data with
  | error e =>
      simp
  | ok manifest =>
      simp only [Except.ok.injEq, exists_eq_left', difference_eq_nil_iff]
      have hsame : (fileChunks manifest ⊆ refChunks manifest ∧
          refChunks manifest ⊆ fileChunks manifest) ↔
          ∀ h, h ∈ fileChunks manifest ↔ h ∈ refChunks manifest :=
        ⟨fun h x => ⟨fun hx => h.1 hx, fun hx => h.2 hx⟩,
          fun h => ⟨fun x hx => (h x).mp hx, fun x hx => (h x).mpr hx⟩⟩
      rw [← hsame]
      split
      · next hboth =>
          exact iff_of_true rfl hboth
      · next hnot =>
          exact iff_of_false (List.cons_ne_nil _ _) hnot

/-- Other files of `dlists` are passed over. -/
theorem forall_dlistFindings_iff :
    (∀ name data, repo.dlists.lookup name = some data →
        dlistFindings json name data = []) ↔
      ∀ vid data, repo.dlists.lookup (dlistName vid) = some data →
        ∃ manifest, json.manifestFromSlice data = .ok manifest ∧
          ∀ h, h ∈ fileChunks manifest ↔ h ∈ refChunks manifest := by
  constructor
  · intro h vid data hlookup
    exact dlistFindings_eq_nil_iff.mp (h (dlistName vid) data hlookup)
  · intro h name data hlookup
    cases hstrip : Path.stripEnd ".dlist" name with
    | none =>
        rw [dlistFindings, hstrip]
    | some vid =>
        obtain rfl : name = dlistName vid := Path.eq_append_of_stripEnd hstrip
        exact dlistFindings_eq_nil_iff.mpr (h vid data hlookup)

/-- The chunks that the check knows of, with the versions that refer to them. -/
theorem mem_referencedChunks_iff {hash : ChunkHash} {vid : String} :
    (hash, vid) ∈ referencedChunks json orders repo ↔ References json repo vid hash := by
  simp only [referencedChunks, List.mem_flatMap, IterOrder.mem_arrange]
  constructor
  · rintro ⟨⟨name, data⟩, hmem, hchunk⟩
    have hlookup := HashMap.mem_toList.mp hmem
    unfold dlistChunks at hchunk
    split at hchunk
    · cases hchunk
    next vid' hstrip =>
      obtain rfl : name = dlistName vid' := Path.eq_append_of_stripEnd hstrip
      split at hchunk
      · cases hchunk
      next manifest hjson =>
        obtain ⟨h, hh, heq⟩ := List.mem_map.mp hchunk
        cases heq
        exact ⟨manifest, ⟨data, hlookup, hjson⟩, List.mem_append.mp hh⟩
  · rintro ⟨manifest, ⟨data, hlookup, hjson⟩, hchunk⟩
    refine ⟨(dlistName vid, data), HashMap.mem_toList.mpr hlookup, ?_⟩
    rw [dlistChunks_eq hjson]
    exact List.mem_map.mpr ⟨hash, List.mem_append.mpr hchunk, rfl⟩

theorem mem_map_referencedChunks_iff {hash : ChunkHash} :
    hash ∈ (referencedChunks json orders repo).map Prod.fst ↔
      ∃ vid, References json repo vid hash := by
  rw [List.mem_map]
  constructor
  · rintro ⟨⟨h, vid⟩, hmem, rfl⟩
    exact ⟨vid, mem_referencedChunks_iff.mp hmem⟩
  · rintro ⟨vid, hrefers⟩
    exact ⟨(hash, vid), mem_referencedChunks_iff.mpr hrefers, rfl⟩

/-- A file of a chunk directory is in order if its name stands for a known chunk. -/
theorem dblockFindings_append_eq_nil_iff {referenced : List (ChunkHash × String)}
    {bucket name : String} :
    dblockFindings referenced bucket (name ++ ".dblock") = [] ↔
      ∃ hash, hashOfName name = some hash ∧ hash ∈ referenced.map Prod.fst := by
  simp only [dblockFindings, Path.stripEnd_append]
  cases hashOfName name with
  | none =>
      simp
  | some hash =>
      simp only [Option.some.injEq, exists_eq_left']
      split
      · next hmem =>
          exact iff_of_true rfl hmem
      · next hnot =>
          exact iff_of_false (List.cons_ne_nil _ _) hnot

theorem forall_dblockFindings_iff {referenced : List (ChunkHash × String)} :
    (∀ bucket name, (repo.dblock bucket name).isSome →
        dblockFindings referenced bucket name = []) ↔
      ∀ bucket name, (repo.dblock bucket (name ++ ".dblock")).isSome →
        ∃ hash, hashOfName name = some hash ∧ hash ∈ referenced.map Prod.fst := by
  constructor
  · intro h bucket name hsome
    exact dblockFindings_append_eq_nil_iff.mp (h bucket (name ++ ".dblock") hsome)
  · intro h bucket name hsome
    cases hstrip : Path.stripEnd ".dblock" name with
    | none =>
        rw [dblockFindings, hstrip]
    | some hashHex =>
        obtain rfl := Path.eq_append_of_stripEnd hstrip
        exact dblockFindings_append_eq_nil_iff.mpr (h bucket hashHex hsome)

/-- Nothing is found exactly if the repository is in order and its directories have names
of referenced chunks as well. -/
theorem allFindings_eq_ok_nil_iff_inOrder :
    allFindings json orders repo = .ok [] ↔ InOrder json repo ∧
      ∀ bucket name, repo.dblock bucket (name ++ ".dblock") = some .directory →
        ∃ hash, hashOfName name = some hash ∧ ∃ vid, References json repo vid hash := by
  rw [allFindings_eq_ok_nil_iff, forall_dlistFindings_iff, forall_dblockFindings_iff]
  simp only [chunkFindings_eq_ok_nil_iff, mem_map_referencedChunks_iff]
  constructor
  · rintro ⟨hlists, hstored, hknown⟩
    refine ⟨⟨?_, ?_, fun vid hash hrefers => hstored hash ⟨vid, hrefers⟩, ?_⟩, ?_⟩
    · intro vid data hlookup
      obtain ⟨manifest, hjson, -⟩ := hlists vid data hlookup
      exact ⟨manifest, hjson⟩
    · rintro vid manifest ⟨data, hlookup, hjson⟩
      obtain ⟨manifest', hjson', hsame⟩ := hlists vid data hlookup
      obtain rfl := Except.ok.inj (hjson.symm.trans hjson')
      exact hsame
    · intro bucket name data hfile
      exact hknown bucket name (Option.isSome_iff_exists.mpr ⟨_, hfile⟩)
    · intro bucket name hdirectory
      exact hknown bucket name (Option.isSome_iff_exists.mpr ⟨_, hdirectory⟩)
  · rintro ⟨h, hdirectories⟩
    refine ⟨fun vid data hlookup => ?_, fun hash ⟨vid, hrefers⟩ => h.stored vid hash hrefers,
      fun bucket name hsome => ?_⟩
    · obtain ⟨manifest, hjson⟩ := h.parsed vid data hlookup
      exact ⟨manifest, hjson, h.sameChunks vid manifest ⟨data, hlookup, hjson⟩⟩
    · obtain ⟨entry, hentry⟩ := Option.isSome_iff_exists.mp hsome
      cases entry with
      | file data =>
          exact h.known bucket name data hentry
      | directory =>
          exact hdirectories bucket name hentry

theorem exists_chunkFindings_iff {referenced : List (ChunkHash × String)}
    {hash : ChunkHash} :
    (∃ found, chunkFindings repo referenced hash = .ok found) ↔
      repo.chunkEntry hash ≠ some .directory := by
  unfold chunkFindings
  cases repo.chunkEntry hash with
  | none =>
      simp
  | some entry =>
      cases entry with
      | directory =>
          simp
      | file data =>
          by_cases hsame : Sha256.hash data = hash.digest
          · simp [hsame]
          · simp [hsame]

/-- The check gets to its end unless a directory is at the path of a referenced chunk. -/
theorem exists_allFindings_iff :
    (∃ findings, allFindings json orders repo = .ok findings) ↔
      ∀ vid hash, References json repo vid hash →
        repo.chunkEntry hash ≠ some .directory := by
  have hall : (∃ findings, allFindings json orders repo = .ok findings) ↔
      ∃ ofChunks, (scannedChunks json orders repo).mapM
        (chunkFindings repo (referencedChunks json orders repo)) = .ok ofChunks := by
    simp only [allFindings_eq_ok_iff, mapM_eq_ok_iff]
    exact ⟨fun ⟨_, ofChunks, hof, _⟩ => ⟨ofChunks, hof⟩,
      fun ⟨ofChunks, hof⟩ => ⟨_, ofChunks, hof, rfl⟩⟩
  rw [hall, exists_mapM_iff]
  simp only [exists_chunkFindings_iff, mem_scannedChunks, mem_map_referencedChunks_iff]
  exact ⟨fun h vid hash hrefers => h hash ⟨vid, hrefers⟩,
    fun h hash ⟨vid, hrefers⟩ => h vid hash hrefers⟩

/-- The findings on missing chunks. -/
def missingOf (findings : List DamageFinding) : List DamageFinding :=
  findings.filter fun f => f.damageType = .chunkMissing

theorem missingOf_dlistFindings (name : String) (data : Bytes) :
    missingOf (dlistFindings json name data) = [] := by
  unfold dlistFindings
  split
  · rfl
  · split
    · rfl
    · dsimp only
      split
      · rfl
      · rfl

theorem missingOf_dblockFindings (referenced : List (ChunkHash × String))
    (bucket name : String) : missingOf (dblockFindings referenced bucket name) = [] := by
  unfold dblockFindings
  split
  · rfl
  · split
    · rfl
    · split
      · rfl
      · rfl

theorem missingOf_chunkFindings {referenced : List (ChunkHash × String)}
    {hash : ChunkHash} {found : List DamageFinding}
    (h : chunkFindings repo referenced hash = .ok found) :
    missingOf found =
      if repo.chunkEntry hash = none then [missingFinding referenced hash] else [] := by
  unfold chunkFindings at h
  split at h
  · next hnone =>
      obtain rfl := Except.ok.inj h
      rw [if_pos hnone]
      rfl
  · cases h
  · next data hentry =>
      have hnone : repo.chunkEntry hash ≠ none := by
        rw [hentry]
        exact Option.some_ne_none _
      rw [if_neg hnone]
      dsimp only at h
      split at h
      · obtain rfl := Except.ok.inj h
        rfl
      · obtain rfl := Except.ok.inj h
        rfl

theorem missingOf_append (fs fs' : List DamageFinding) :
    missingOf (fs ++ fs') = missingOf fs ++ missingOf fs' :=
  List.filter_append _ _

theorem missingOf_flatMap_eq_nil {α : Type} {l : List α} {f : α → List DamageFinding}
    (h : ∀ a, missingOf (f a) = []) : missingOf (l.flatMap f) = [] := by
  rw [missingOf, List.filter_flatMap]
  exact List.flatMap_eq_nil_iff.mpr fun a _ => h a

theorem missingOf_manifestPass : missingOf (manifestPass json orders repo) = [] :=
  missingOf_flatMap_eq_nil fun _ => missingOf_dlistFindings _ _

theorem missingOf_dblockPass : missingOf (dblockPass json orders repo) = [] :=
  missingOf_flatMap_eq_nil fun _ =>
    missingOf_flatMap_eq_nil fun _ => missingOf_dblockFindings _ _ _

/-- Of the chunks that the second pass goes through, those without an entry give one
finding each. -/
theorem missingOf_flatten {referenced : List (ChunkHash × String)}
    {chunks : List ChunkHash} {ofChunks : List (List DamageFinding)}
    (h : List.Forall₂ (fun hash found => chunkFindings repo referenced hash = .ok found)
      chunks ofChunks) :
    missingOf ofChunks.flatten =
      (chunks.filter fun hash => repo.chunkEntry hash = none).map
        (missingFinding referenced) := by
  induction h with
  | nil =>
      rfl
  | @cons hash found chunks ofChunks hfound _ ih =>
      rw [List.flatten_cons, missingOf_append, ih, missingOf_chunkFindings hfound,
        List.filter_cons]
      by_cases hnone : repo.chunkEntry hash = none
      · simp [hnone]
      · simp [hnone]

/-- The chunks that the check goes through and that have no file. -/
def missingChunks (json : CompatJson) (orders : CheckOrders) (repo : CompatibleRepository) :
    List ChunkHash :=
  (scannedChunks json orders repo).filter fun hash => repo.chunkEntry hash = none

/-- Each of them gives one finding. -/
theorem missingOf_allFindings {findings : List DamageFinding}
    (h : allFindings json orders repo = .ok findings) :
    missingOf findings = (missingChunks json orders repo).map
      (missingFinding (referencedChunks json orders repo)) := by
  obtain ⟨ofChunks, hall, rfl⟩ := allFindings_eq_ok_iff.mp h
  rw [missingOf_append, missingOf_append, missingOf_manifestPass, missingOf_dblockPass,
    missingOf_flatten hall, List.nil_append, List.append_nil]
  rfl

theorem mem_missingChunks_iff {hash : ChunkHash} :
    hash ∈ missingChunks json orders repo ↔
      (∃ vid, References json repo vid hash) ∧ repo.chunkEntry hash = none := by
  rw [missingChunks, List.mem_filter, mem_scannedChunks, mem_map_referencedChunks_iff,
    decide_eq_true_eq]

theorem nodup_missingChunks : (missingChunks json orders repo).Nodup :=
  ((orders.chunks.perm _).nodup_iff.mpr (List.nodup_dedup _)).filter _

/-- The versions of a finding are those that refer to its chunk. -/
theorem mem_affectedVersions_iff {hash : ChunkHash} {vid : String} :
    vid ∈ affectedVersions (referencedChunks json orders repo) hash ↔
      References json repo vid hash := by
  rw [affectedVersions, ← @mem_referencedChunks_iff json orders repo]
  constructor
  · intro hmem
    obtain ⟨⟨h, v⟩, he, rfl⟩ := List.mem_map.mp hmem
    obtain ⟨hin, hsame⟩ := List.mem_filter.mp he
    obtain rfl : h = hash := of_decide_eq_true hsame
    exact hin
  · intro hmem
    exact List.mem_map.mpr
      ⟨(hash, vid), List.mem_filter.mpr ⟨hmem, decide_eq_true rfl⟩, rfl⟩

theorem findsMissing_of_allFindings {findings : List DamageFinding}
    (h : allFindings json orders repo = .ok findings) :
    FindsMissing json repo findings := by
  have hread := exists_allFindings_iff.mp ⟨findings, h⟩
  refine ⟨missingChunks json orders repo, nodup_missingChunks, fun hash => ?_, ?_⟩
  · rw [mem_missingChunks_iff]
    refine and_congr_right fun ⟨vid, hrefers⟩ => ⟨fun hnone data => ?_, fun hfile => ?_⟩
    · rw [hnone]
      exact (Option.some_ne_none _).symm
    · cases hentry : repo.chunkEntry hash with
      | none =>
          rfl
      | some entry =>
          cases entry with
          | file data =>
              exact absurd hentry (hfile data)
          | directory =>
              exact absurd hentry (hread vid hash hrefers)
  · change List.Forall₂ _ _ (missingOf _)
    rw [missingOf_allFindings h, List.forall₂_map_right_iff, List.forall₂_same]
    exact fun hash _ => ⟨rfl, fun vid => mem_affectedVersions_iff⟩

/-- With readable metadata the check reports what it finds. -/
theorem selfCheck_eq_ok_iff {metadata : CompatRepoMetadata} {now : DateTime}
    (hmetadata : readMetadata json repo = .ok metadata) {findings : List DamageFinding} :
    (∃ report, selfCheck json orders now repo = .ok report ∧ report.findings = findings) ↔
      allFindings json orders repo = .ok findings := by
  rw [selfCheck, hmetadata]
  cases allFindings json orders repo with
  | error e =>
      constructor
      · rintro ⟨report, hreport, -⟩
        cases hreport
      · intro h
        cases h
  | ok found =>
      constructor
      · rintro ⟨report, hreport, hfindings⟩
        cases hreport
        exact congrArg Except.ok hfindings
      · intro h
        exact ⟨_, rfl, Except.ok.inj h⟩

theorem directoriesHarmless_of_checksExactly {metadata : CompatRepoMetadata}
    {now : DateTime} (hmetadata : readMetadata json repo = .ok metadata)
    (h : ChecksExactly json repo orders now) : DirectoriesHarmless json repo := by
  obtain ⟨report, hreport, hclean, -⟩ := h
  have hfound := (selfCheck_eq_ok_iff hmetadata).mp ⟨report, hreport, rfl⟩
  refine ⟨exists_allFindings_iff.mp ⟨_, hfound⟩, fun horder => ?_⟩
  rw [hclean.mpr horder] at hfound
  exact (allFindings_eq_ok_nil_iff_inOrder.mp hfound).2

end Passes

/-- A repository whose metadata can be read is checked exactly if and only if its
directories do no harm. -/
theorem checksExactly_iff (json : CompatJson) (orders : CheckOrders) (now : DateTime)
    (repo : CompatibleRepository) (metadata : CompatRepoMetadata)
    (hmetadata : readMetadata json repo = .ok metadata) :
    ChecksExactly json repo orders now ↔ DirectoriesHarmless json repo := by
  refine ⟨directoriesHarmless_of_checksExactly hmetadata, fun h => ?_⟩
  obtain ⟨findings, hfound⟩ : ∃ findings, allFindings json orders repo = .ok findings :=
    exists_allFindings_iff.mpr h.notAtChunk
  obtain ⟨report, hreport, rfl⟩ := (selfCheck_eq_ok_iff hmetadata).mpr hfound
  refine ⟨report, hreport, ⟨fun hnil => ?_, fun horder => ?_⟩,
    findsMissing_of_allFindings hfound⟩
  · rw [hnil] at hfound
    exact (allFindings_eq_ok_nil_iff_inOrder.mp hfound).1
  · rw [allFindings_eq_ok_nil_iff_inOrder.mpr ⟨horder, h.known horder⟩] at hfound
    exact (Except.ok.inj hfound).symm

section Example

open CompatibilityRepoAdapter BackupEngine

/-- A chunk that is named by its SHA-256 hash. -/
def abcSha256 : ChunkHash :=
  ⟨Sha256.hash abc⟩

/-- A version of one file that has this chunk. -/
def sharedManifest : CompatibilityManifest :=
  { manifestToCompat abcManifest with
    files := [{ fileEntryToCompat (exampleFile "/data/abc" 3) with chunks := [abcSha256] }]
    chunkRefs := [{
      hash := abcSha256
      versionId := (exampleExecution 4).versionId
      filePath := "/data/abc"
      offset := 0 }] }

def sharedJson : CompatJson :=
  Json.only (newMetadata "test-adapter" exampleTime) sharedManifest

/-- Two versions refer to the chunk, which has no file. -/
def twoVersions : CompatibleRepository :=
  ((init sharedJson "test-adapter" exampleTime).writeCompatManifest sharedJson "1"
    sharedManifest).writeCompatManifest sharedJson "2" sharedManifest

/-- The file is there as well. -/
def twoVersionsStored : CompatibleRepository :=
  (twoVersions.writeCompatChunk abcSha256 abc).2

/-- Beside it, a directory has the same name in another place. -/
def twoVersionsAndDirectory : CompatibleRepository :=
  twoVersionsStored.putEntry "old" (dblockName abcSha256) .directory

theorem readMetadata_twoVersions :
    readMetadata sharedJson twoVersions =
      .ok (newMetadata "test-adapter" exampleTime) := by
  simp only [readMetadata, twoVersions, writeCompatManifest, init, sharedJson, Json.only,
    if_pos]
  rfl

theorem dlists_twoVersions {name : String} {data : Bytes}
    (h : twoVersions.dlists.lookup name = some data) :
    sharedJson.manifestFromSlice data = .ok sharedManifest := by
  rw [twoVersions, lookup_dlists_writeCompatManifest,
    lookup_dlists_writeCompatManifest] at h
  have hdata : data = sharedJson.manifestToVec sharedManifest := by
    split at h
    · exact (Option.some.inj h).symm
    · split at h
      · exact (Option.some.inj h).symm
      · cases h
  rw [hdata]
  simp only [sharedJson, Json.only, if_pos]

theorem references_twoVersions {vid : String} {hash : ChunkHash}
    (h : References sharedJson twoVersions vid hash) : hash = abcSha256 := by
  obtain ⟨manifest, ⟨data, hlookup, hjson⟩, hchunk⟩ := h
  rw [dlists_twoVersions hlookup] at hjson
  obtain rfl := Except.ok.inj hjson
  obtain hfile | href := hchunk
  · exact List.mem_singleton.mp hfile
  · exact List.mem_singleton.mp href

theorem references_abcSha256 : References sharedJson twoVersions "1" abcSha256 := by
  refine ⟨sharedManifest, ⟨sharedJson.manifestToVec sharedManifest, ?_, ?_⟩,
    Or.inl List.mem_cons_self⟩
  · rw [twoVersions, lookup_dlists_writeCompatManifest, if_neg (by decide),
      lookup_dlists_writeCompatManifest, if_pos rfl]
  · simp only [sharedJson, Json.only, if_pos]

theorem dblock_twoVersions (bucket name : String) :
    twoVersions.dblock bucket name = none := by
  rw [twoVersions, dblock_writeCompatManifest, dblock_writeCompatManifest, dblock_init]

theorem dblock_twoVersionsStored (bucket name : String) :
    twoVersionsStored.dblock bucket name =
      if bucket = bucketOf abcSha256 ∧ name = dblockName abcSha256 then some (.file abc)
      else none := by
  have hnone : twoVersions.chunkEntry abcSha256 = none := dblock_twoVersions _ _
  rw [twoVersionsStored, dblock_writeCompatChunk, hnone, dblock_twoVersions]
  rfl

theorem dlists_twoVersionsStored : twoVersionsStored.dlists = twoVersions.dlists := by
  rw [twoVersionsStored, dlists_writeCompatChunk]

theorem readMetadata_twoVersionsStored :
    readMetadata sharedJson twoVersionsStored =
      .ok (newMetadata "test-adapter" exampleTime) := by
  have hmetadata : twoVersionsStored.metadata = twoVersions.metadata := by
    rw [twoVersionsStored, metadata_writeCompatChunk]
  rw [← readMetadata_twoVersions, readMetadata, readMetadata, hmetadata]

theorem references_twoVersionsStored {vid : String} {hash : ChunkHash} :
    References sharedJson twoVersionsStored vid hash ↔
      References sharedJson twoVersions vid hash := by
  simp only [References, HasManifest, dlists_twoVersionsStored]

theorem inOrder_twoVersionsStored : InOrder sharedJson twoVersionsStored where
  parsed := by
    intro vid data hlookup
    rw [dlists_twoVersionsStored] at hlookup
    exact ⟨sharedManifest, dlists_twoVersions hlookup⟩
  sameChunks := by
    rintro vid manifest ⟨data, hlookup, hjson⟩ hash
    rw [dlists_twoVersionsStored] at hlookup
    rw [dlists_twoVersions hlookup] at hjson
    obtain rfl := Except.ok.inj hjson
    exact Iff.rfl
  stored := by
    intro vid hash hrefers
    rw [references_twoVersions (references_twoVersionsStored.mp hrefers)]
    exact ⟨abc, (dblock_twoVersionsStored _ _).trans (if_pos ⟨rfl, rfl⟩), rfl⟩
  known := by
    intro bucket name data hfile
    rw [dblock_twoVersionsStored] at hfile
    split at hfile
    · next hpath =>
        rw [(String.append_left_inj _).mp hpath.2]
        exact ⟨abcSha256, hashOfName_toHex abcSha256, "1",
          references_twoVersionsStored.mpr references_abcSha256⟩
    · cases hfile

-- What is put into a directory for chunks changes no manifest and not the metadata.
theorem references_putEntry {json : CompatJson} {repo : CompatibleRepository}
    {bucket name : String} {entry : DblockEntry} {vid : String} {hash : ChunkHash} :
    References json (repo.putEntry bucket name entry) vid hash ↔
      References json repo vid hash :=
  Iff.rfl

theorem readMetadata_putEntry (json : CompatJson) (repo : CompatibleRepository)
    (bucket name : String) (entry : DblockEntry) :
    readMetadata json (repo.putEntry bucket name entry) = readMetadata json repo :=
  rfl

/-- A directory in a free place leaves a repository in order. -/
theorem InOrder.putDirectory {json : CompatJson} {repo : CompatibleRepository}
    {bucket name : String} (h : InOrder json repo) (hfree : repo.dblock bucket name = none) :
    InOrder json (repo.putEntry bucket name .directory) where
  parsed := h.parsed
  sameChunks := h.sameChunks
  stored := by
    intro vid hash hrefers
    obtain ⟨data, hfile, hsame⟩ := h.stored vid hash hrefers
    refine ⟨data, ?_, hsame⟩
    rw [chunkEntry, dblock_putEntry, if_neg]
    · exact hfile
    · rintro ⟨hbucket, hname⟩
      rw [chunkEntry, hbucket, hname, hfree] at hfile
      cases hfile
  known := by
    intro bucket' name' data hfile
    rw [dblock_putEntry] at hfile
    split at hfile
    · cases hfile
    · exact h.known bucket' name' data hfile

theorem dblock_twoVersionsStored_of_ne {bucket : String}
    (h : bucket ≠ bucketOf abcSha256) (name : String) :
    twoVersionsStored.dblock bucket name = none := by
  rw [dblock_twoVersionsStored, if_neg fun hpath => h hpath.1]

/-- The directory does no harm: it has the name of the chunk and is not at its path. -/
theorem directoriesHarmless_twoVersionsAndDirectory :
    DirectoriesHarmless sharedJson twoVersionsAndDirectory where
  notAtChunk := by
    intro vid hash hrefers
    rw [twoVersionsAndDirectory, references_putEntry, references_twoVersionsStored]
      at hrefers
    have helsewhere : ¬ (bucketOf abcSha256 = "old" ∧
        dblockName abcSha256 = dblockName abcSha256) := by
      decide +kernel
    rw [references_twoVersions hrefers, chunkEntry, twoVersionsAndDirectory,
      dblock_putEntry, if_neg helsewhere, dblock_twoVersionsStored, if_pos ⟨rfl, rfl⟩]
    intro hentry
    cases hentry
  known := by
    intro _ bucket name hdirectory
    rw [twoVersionsAndDirectory, dblock_putEntry] at hdirectory
    split at hdirectory
    · next hpath =>
        rw [(String.append_left_inj _).mp hpath.2]
        refine ⟨abcSha256, hashOfName_toHex abcSha256, "1", ?_⟩
        rw [twoVersionsAndDirectory, references_putEntry, references_twoVersionsStored]
        exact references_abcSha256
    · rw [dblock_twoVersionsStored] at hdirectory
      split at hdirectory
      · cases hdirectory
      · cases hdirectory

/-- There is no directory at all. -/
theorem directoriesHarmless_twoVersions : DirectoriesHarmless sharedJson twoVersions where
  notAtChunk := by
    intro vid hash _
    rw [chunkEntry, dblock_twoVersions]
    intro hentry
    cases hentry
  known := by
    intro _ bucket name hdirectory
    rw [dblock_twoVersions] at hdirectory
    cases hdirectory

theorem readMetadata_twoVersionsAndDirectory :
    readMetadata sharedJson twoVersionsAndDirectory =
      .ok (newMetadata "test-adapter" exampleTime) := by
  rw [twoVersionsAndDirectory, readMetadata_putEntry, readMetadata_twoVersionsStored]

/-- The check of two versions that share a chunk is exact, with and without the file of
the chunk, also beside a directory. -/
theorem checksExactly_twoVersions :
    ChecksExactly sharedJson twoVersionsAndDirectory asStoredOrders exampleTime ∧
      ChecksExactly sharedJson twoVersions asStoredOrders exampleTime :=
  ⟨(checksExactly_iff sharedJson asStoredOrders exampleTime twoVersionsAndDirectory _
      readMetadata_twoVersionsAndDirectory).mpr
      directoriesHarmless_twoVersionsAndDirectory,
    (checksExactly_iff sharedJson asStoredOrders exampleTime twoVersions _
      readMetadata_twoVersions).mpr directoriesHarmless_twoVersions⟩

/-- A directory `junk.dblock` beside the file of the chunk is found, although all files are
in order. -/
theorem not_checksExactly_junk :
    InOrder sharedJson (twoVersionsStored.putEntry "ab" "junk.dblock" .directory) ∧
      ¬ ChecksExactly sharedJson
        (twoVersionsStored.putEntry "ab" "junk.dblock" .directory) asStoredOrders
        exampleTime := by
  have horder : InOrder sharedJson
      (twoVersionsStored.putEntry "ab" "junk.dblock" .directory) :=
    inOrder_twoVersionsStored.putDirectory
      (dblock_twoVersionsStored_of_ne (by decide +kernel) _)
  refine ⟨horder, fun hexact => ?_⟩
  have hmetadata := readMetadata_twoVersionsStored
  rw [← readMetadata_putEntry sharedJson _ "ab" "junk.dblock" .directory] at hmetadata
  have hharmless := directoriesHarmless_of_checksExactly hmetadata hexact
  have hdirectory : (twoVersionsStored.putEntry "ab" "junk.dblock" .directory).dblock "ab"
      ("junk" ++ ".dblock") = some .directory := by
    rw [dblock_putEntry, if_pos (by decide)]
  obtain ⟨hash, hname, -⟩ := hharmless.known horder "ab" "junk" hdirectory
  have hnone : hashOfName "junk" = none := by
    decide +kernel
  rw [hnone] at hname
  cases hname

end Example

end CompatibleRepository
end Compat
end HyperBackup
