import HyperBackup.Agent.Engine
import HyperBackup.Compat.Json
import HyperBackup.Compat.Repository
import HyperBackup.Lib.Path
import HyperBackup.Lib.Program
import HyperBackup.Lib.Sha256
import Mathlib.Data.List.Dedup

/-!
# The check that a compatible repository makes of itself

The check reads all manifests, compares the file of every referenced chunk with
the name it has, and looks for chunk files that no manifest refers to.  In the last
pass it does not ask whether a name belongs to a file, and a directory at the path
of a referenced chunk ends the check with an error.

The engine names a chunk by the BLAKE3 hash of its data; the check takes the name
for the SHA-256 hash of the file.  So a repository that was only written through the
adapter is clean exactly if every chunk in it is referenced and its file happens to
have that SHA-256 hash.
-/

namespace HyperBackup
namespace Compat

open Lib Lib.Program Agent

inductive DamageType
  | chunkMissing
  | chunkTampered
  | repoInconsistent
deriving DecidableEq

structure DamageLocation where
  bucket : Option String
  path : String
  versionId : Option String
deriving DecidableEq

structure DamageFinding where
  damageType : DamageType
  location : DamageLocation
  description : String
  affectedVersions : List String
deriving DecidableEq

structure CompatRepoIntegrityReport where
  repositoryId : String
  checkedAt : DateTime
  totalChunksScanned : Nat
  totalManifestsScanned : Nat
  findings : List DamageFinding
deriving DecidableEq

/-- The orders in which the directories and the set of chunks are gone through. -/
structure CheckOrders where
  files : IterOrder (String × Bytes)
  buckets : IterOrder (String × HashMap String DblockEntry)
  entries : IterOrder (String × DblockEntry)
  chunks : IterOrder ChunkHash

namespace CompatibleRepository

section Operations

variable (json : CompatJson) (orders : CheckOrders)

def fileChunks (manifest : CompatibilityManifest) : List ChunkHash :=
  manifest.files.flatMap CompatFileEntry.chunks

def refChunks (manifest : CompatibilityManifest) : List ChunkHash :=
  manifest.chunkRefs.map ChunkReference.hash

/-- The elements of the first set that are not in the second. -/
def difference (as bs : List ChunkHash) : List ChunkHash :=
  as.dedup.filter fun h => h ∉ bs

/-- What the check finds about a file of `dlists`. -/
def dlistFindings (filename : String) (data : Bytes) : List DamageFinding :=
  match Path.stripEnd ".dlist" filename with
  | none => []
  | some vid =>
      match json.manifestFromSlice data with
      | .error _ => [{
          damageType := .repoInconsistent
          location := { bucket := none, path := filename, versionId := some vid }
          description := "manifest is not valid JSON"
          affectedVersions := [vid] }]
      | .ok manifest =>
          let onlyInFiles := difference (fileChunks manifest) (refChunks manifest)
          let onlyInRefs := difference (refChunks manifest) (fileChunks manifest)
          if onlyInFiles = [] ∧ onlyInRefs = [] then []
          else [{
            damageType := .repoInconsistent
            location := { bucket := none, path := filename, versionId := some vid }
            description := "chunk set mismatch: " ++ toString onlyInFiles.length ++
              " in files only, " ++ toString onlyInRefs.length ++ " in refs only"
            affectedVersions := [vid] }]

/-- The chunks that a file of `dlists` refers to, each with its version. -/
def dlistChunks (filename : String) (data : Bytes) : List (ChunkHash × String) :=
  match Path.stripEnd ".dlist" filename with
  | none => []
  | some vid =>
      match json.manifestFromSlice data with
      | .error _ => []
      | .ok manifest =>
          (fileChunks manifest ++ refChunks manifest).map fun h => (h, vid)

/-- The versions that refer to a chunk. -/
def affectedVersions (referenced : List (ChunkHash × String)) (hash : ChunkHash) :
    List String :=
  (referenced.filter fun e => e.1 = hash).map Prod.snd

/-- What is found about a chunk without a file. -/
def missingFinding (referenced : List (ChunkHash × String)) (hash : ChunkHash) :
    DamageFinding where
  damageType := .chunkMissing
  location := {
    bucket := some (bucketOf hash), path := dblockName hash, versionId := none }
  description := "referenced chunk file not found on disk"
  affectedVersions := affectedVersions referenced hash

/-- What the check finds about a chunk that is referred to; a directory cannot be
read. -/
def chunkFindings (repo : CompatibleRepository)
    (referenced : List (ChunkHash × String)) (hash : ChunkHash) :
    Except CompatRepoError (List DamageFinding) :=
  match repo.chunkEntry hash with
  | none => .ok [missingFinding referenced hash]
  | some .directory => .error (.io "Is a directory (os error 21)")
  | some (.file data) =>
      let computed := Sha256.hash data
      if computed = hash.digest then .ok []
      else .ok [{
        damageType := .chunkTampered
        location := {
          bucket := some (bucketOf hash), path := dblockName hash, versionId := none }
        description := "chunk content hash mismatch: expected " ++ hash.toHex ++
          ", got " ++ Hex.encode computed.toList
        affectedVersions := affectedVersions referenced hash }]

/-- The hash that the name of a chunk file stands for. -/
def hashOfName (hashHex : String) : Option ChunkHash :=
  match Hex.decode hashHex with
  | .error _ => none
  | .ok bytes => if h : bytes.length = 32 then some ⟨⟨bytes, h⟩⟩ else none

/-- What the check finds about a name in a directory for chunks. -/
def dblockFindings (referenced : List (ChunkHash × String)) (bucket : String)
    (chunkFilename : String) : List DamageFinding :=
  let location := {
    bucket := some bucket, path := chunkFilename, versionId := none }
  match Path.stripEnd ".dblock" chunkFilename with
  | none => []
  | some hashHex =>
      match hashOfName hashHex with
      | none => [{
          damageType := .repoInconsistent
          location := location
          description := "chunk filename is not a valid hex-encoded SHA-256"
          affectedVersions := [] }]
      | some hash =>
          if hash ∈ referenced.map Prod.fst then []
          else [{
            damageType := .repoInconsistent
            location := location
            description := "orphaned chunk not referenced by any manifest"
            affectedVersions := [] }]

def readMetadata (repo : CompatibleRepository) :
    Except CompatRepoError CompatRepoMetadata :=
  match repo.metadata with
  | none => .error (.io "No such file or directory (os error 2)")
  | some data => (json.metadataFromSlice data).mapError .serialize

/-- The chunks that the manifests refer to. -/
def referencedChunks (repo : CompatibleRepository) : List (ChunkHash × String) :=
  (orders.files.arrange (HashMap.toList repo.dlists)).flatMap fun e =>
    dlistChunks json e.1 e.2

/-- What the pass over the manifests finds. -/
def manifestPass (repo : CompatibleRepository) : List DamageFinding :=
  (orders.files.arrange (HashMap.toList repo.dlists)).flatMap fun e =>
    dlistFindings json e.1 e.2

/-- The chunks that the second pass goes through. -/
def scannedChunks (repo : CompatibleRepository) : List ChunkHash :=
  orders.chunks.arrange ((referencedChunks json orders repo).map Prod.fst).dedup

/-- What the pass over the directories for chunks finds. -/
def dblockPass (repo : CompatibleRepository) : List DamageFinding :=
  (orders.buckets.arrange (HashMap.toList repo.dblocks)).flatMap fun bucket =>
    (orders.entries.arrange (HashMap.toList bucket.2)).flatMap fun e =>
      dblockFindings (referencedChunks json orders repo) bucket.1 e.1

def allFindings (repo : CompatibleRepository) :
    Except CompatRepoError (List DamageFinding) := do
  let ofChunks ← (scannedChunks json orders repo).mapM
    (chunkFindings repo (referencedChunks json orders repo))
  return manifestPass json orders repo ++ ofChunks.flatten ++ dblockPass json orders repo

def selfCheck (now : DateTime) (repo : CompatibleRepository) :
    Except CompatRepoError CompatRepoIntegrityReport := do
  let metadata ← readMetadata json repo
  let findings ← allFindings json orders repo
  let dlists := (HashMap.toList repo.dlists).filter fun e =>
    (Path.stripEnd ".dlist" e.1).isSome
  return {
    repositoryId := metadata.repositoryId
    checkedAt := now
    totalChunksScanned := (scannedChunks json orders repo).length
    totalManifestsScanned := dlists.length
    findings := findings }

end Operations

section Findings

variable {json : CompatJson} {orders : CheckOrders} {repo : CompatibleRepository}

theorem difference_eq_nil_iff {as bs : List ChunkHash} :
    difference as bs = [] ↔ as ⊆ bs := by
  simp [difference, List.filter_eq_nil_iff, List.subset_def]

/-- A file that has a manifest is in order if its two sets of chunks agree. -/
theorem dlistFindings_eq_nil {vid : String} {data : Bytes}
    {manifest : CompatibilityManifest}
    (hjson : json.manifestFromSlice data = .ok manifest)
    (hsame : ∀ h, h ∈ fileChunks manifest ↔ h ∈ refChunks manifest) :
    dlistFindings json (dlistName vid) data = [] := by
  have hstrip : Path.stripEnd ".dlist" (dlistName vid) = some vid :=
    Path.stripEnd_append _ _
  have hfiles : difference (fileChunks manifest) (refChunks manifest) = [] :=
    difference_eq_nil_iff.mpr fun h hh => (hsame h).mp hh
  have hrefs : difference (refChunks manifest) (fileChunks manifest) = [] :=
    difference_eq_nil_iff.mpr fun h hh => (hsame h).mpr hh
  simp only [dlistFindings, hstrip, hjson, hfiles, hrefs, and_self, if_true]

theorem dlistChunks_eq {vid : String} {data : Bytes}
    {manifest : CompatibilityManifest}
    (hjson : json.manifestFromSlice data = .ok manifest) :
    dlistChunks json (dlistName vid) data =
      (fileChunks manifest ++ refChunks manifest).map fun h => (h, vid) := by
  have hstrip : Path.stripEnd ".dlist" (dlistName vid) = some vid :=
    Path.stripEnd_append _ _
  simp only [dlistChunks, hstrip, hjson]

/-- A chunk is in order if its file has the hash that its name says. -/
theorem chunkFindings_eq_ok_nil_iff {referenced : List (ChunkHash × String)}
    {hash : ChunkHash} :
    chunkFindings repo referenced hash = .ok [] ↔
      ∃ data, repo.chunkEntry hash = some (.file data) ∧
        Sha256.hash data = hash.digest := by
  unfold chunkFindings
  cases hentry : repo.chunkEntry hash with
  | none =>
      simp
  | some entry =>
      cases entry with
      | directory =>
          simp
      | file data =>
          by_cases hsame : Sha256.hash data = hash.digest
          · simp [hsame]
          · simp [hsame]

theorem hashOfName_toHex (hash : ChunkHash) : hashOfName hash.toHex = some hash := by
  have hdecode : Hex.decode hash.toHex = .ok hash.digest.toList := Hex.decode_encode _
  have hlength : hash.digest.toList.length = 32 := hash.digest.toList_length
  rw [hashOfName, hdecode]
  simp only [hlength]
  rfl

/-- The file of a chunk is in order if some manifest refers to the chunk. -/
theorem dblockFindings_eq_nil_iff {referenced : List (ChunkHash × String)}
    {bucket : String} {hash : ChunkHash} :
    dblockFindings referenced bucket (dblockName hash) = [] ↔
      hash ∈ referenced.map Prod.fst := by
  have hstrip : Path.stripEnd ".dblock" (dblockName hash) = some hash.toHex :=
    Path.stripEnd_append _ _
  simp only [dblockFindings, hstrip, hashOfName_toHex]
  by_cases hmem : hash ∈ referenced.map Prod.fst
  · simp only [hmem, if_true]
  · simp only [hmem, if_false, List.cons_ne_nil]

theorem mem_referencedChunks {hash : ChunkHash} :
    hash ∈ (referencedChunks json orders repo).map Prod.fst ↔
      ∃ name data, repo.dlists.lookup name = some data ∧
        hash ∈ (dlistChunks json name data).map Prod.fst := by
  simp only [referencedChunks, List.map_flatMap, List.mem_flatMap,
    IterOrder.mem_arrange]
  constructor
  · rintro ⟨⟨name, data⟩, hmem, hhash⟩
    exact ⟨name, data, HashMap.mem_toList.mp hmem, hhash⟩
  · rintro ⟨name, data, hlookup, hhash⟩
    exact ⟨(name, data), HashMap.mem_toList.mpr hlookup, hhash⟩

theorem mem_scannedChunks {hash : ChunkHash} :
    hash ∈ scannedChunks json orders repo ↔
      hash ∈ (referencedChunks json orders repo).map Prod.fst := by
  rw [scannedChunks, IterOrder.mem_arrange, List.mem_dedup]

theorem manifestPass_eq_nil_iff :
    manifestPass json orders repo = [] ↔
      ∀ name data, repo.dlists.lookup name = some data →
        dlistFindings json name data = [] := by
  simp only [manifestPass, List.flatMap_eq_nil_iff, IterOrder.mem_arrange]
  constructor
  · intro h name data hlookup
    exact h (name, data) (HashMap.mem_toList.mpr hlookup)
  · rintro h ⟨name, data⟩ hmem
    exact h name data (HashMap.mem_toList.mp hmem)

theorem dblockPass_eq_nil_iff :
    dblockPass json orders repo = [] ↔
      ∀ bucket name, (repo.dblock bucket name).isSome →
        dblockFindings (referencedChunks json orders repo) bucket name = [] := by
  simp only [dblockPass, List.flatMap_eq_nil_iff, IterOrder.mem_arrange]
  constructor
  · intro h bucket name hsome
    obtain ⟨entry, hentry⟩ := Option.isSome_iff_exists.mp hsome
    obtain ⟨entries, hentries, hname⟩ := Option.bind_eq_some_iff.mp hentry
    exact h (bucket, entries) (HashMap.mem_toList.mpr hentries) (name, entry)
      (HashMap.mem_toList.mpr hname)
  · rintro h ⟨bucket, entries⟩ hentries ⟨name, entry⟩ hname
    refine h bucket name ?_
    rw [dblock, HashMap.mem_toList.mp hentries, Option.bind_some,
      HashMap.mem_toList.mp hname]
    rfl

/-- What is found is what the three passes find. -/
theorem allFindings_eq_ok_iff {findings : List DamageFinding} :
    allFindings json orders repo = .ok findings ↔ ∃ ofChunks : List (List DamageFinding),
      List.Forall₂ (fun hash found =>
          chunkFindings repo (referencedChunks json orders repo) hash = .ok found)
        (scannedChunks json orders repo) ofChunks ∧
      findings = manifestPass json orders repo ++ ofChunks.flatten ++
        dblockPass json orders repo := by
  unfold allFindings
  cases hpass : (scannedChunks json orders repo).mapM
      (chunkFindings repo (referencedChunks json orders repo)) with
  | error e =>
      constructor
      · intro h
        cases h
      · rintro ⟨ofChunks, hall, -⟩
        rw [mapM_eq_ok_iff.mpr hall] at hpass
        cases hpass
  | ok ofChunks =>
      constructor
      · intro h
        exact ⟨ofChunks, mapM_eq_ok_iff.mp hpass, (Except.ok.inj h).symm⟩
      · rintro ⟨ofChunks', hall, rfl⟩
        rw [mapM_eq_ok_iff.mpr hall] at hpass
        cases hpass
        rfl

/-- Nothing is found if all manifests, all referenced chunks and all names in the
directories for chunks are in order. -/
theorem allFindings_eq_ok_nil_iff :
    allFindings json orders repo = .ok [] ↔
      (∀ name data, repo.dlists.lookup name = some data →
        dlistFindings json name data = []) ∧
      (∀ hash ∈ (referencedChunks json orders repo).map Prod.fst,
        chunkFindings repo (referencedChunks json orders repo) hash = .ok []) ∧
      ∀ bucket name, (repo.dblock bucket name).isSome →
        dblockFindings (referencedChunks json orders repo) bucket name = [] := by
  rw [allFindings_eq_ok_iff, ← manifestPass_eq_nil_iff, ← dblockPass_eq_nil_iff]
  simp only [← mem_scannedChunks]
  rw [← exists_forall₂_flatten_eq_nil_iff]
  constructor
  · rintro ⟨ofChunks, hall, hnil⟩
    obtain ⟨hfirst, hlast⟩ := List.append_eq_nil_iff.mp hnil.symm
    obtain ⟨hmanifests, hchunks⟩ := List.append_eq_nil_iff.mp hfirst
    exact ⟨hmanifests, ⟨ofChunks, hall, hchunks⟩, hlast⟩
  · rintro ⟨hmanifests, ⟨ofChunks, hall, hchunks⟩, hlast⟩
    refine ⟨ofChunks, hall, ?_⟩
    rw [hmanifests, hchunks, hlast]
    rfl

end Findings

end CompatibleRepository

namespace CompatibilityRepoAdapter

open CompatibleRepository

/-- A call that writes through the adapter. -/
inductive AdapterCall
  | writeChunk (hash : ChunkHash) (encrypted : EncryptedChunk)
  | writeManifest (versionId : VersionId) (manifest : Manifest)

section Definitions

variable (json : CompatJson)

def AdapterCall.after (repo : CompatibleRepository) :
    AdapterCall → CompatibleRepository
  | .writeChunk hash encrypted => (CompatibilityRepoAdapter.writeChunk hash encrypted repo).2
  | .writeManifest versionId manifest =>
      CompatibilityRepoAdapter.writeManifest json versionId manifest repo

/-- What a call writes for a chunk. -/
def AdapterCall.chunkOf (h : ChunkHash) : AdapterCall → Option EncryptedChunk
  | .writeChunk hash encrypted => if hash = h then some encrypted else none
  | .writeManifest _ _ => none

/-- What a call writes for a version. -/
def AdapterCall.manifestOf (v : VersionId) : AdapterCall → Option Manifest
  | .writeChunk _ _ => none
  | .writeManifest versionId manifest =>
      if versionId = v then some manifest else none

def afterCalls (repo : CompatibleRepository) (calls : List AdapterCall) :
    CompatibleRepository :=
  calls.foldl (AdapterCall.after json) repo

/-- What was first written for a chunk. -/
def firstWritten (calls : List AdapterCall) (h : ChunkHash) :
    Option EncryptedChunk :=
  calls.findSome? (AdapterCall.chunkOf h)

/-- The manifest that a version has now. -/
def currentManifest (calls : List AdapterCall) (v : VersionId) : Option Manifest :=
  calls.reverse.findSome? (AdapterCall.manifestOf v)

/-- In every manifest the chunks of the files are those of the references, and
all of them are written. -/
structure FollowsProtocol (calls : List AdapterCall) : Prop where
  sameChunks : ∀ v m, AdapterCall.writeManifest v m ∈ calls →
    ∀ h, h ∈ m.files.flatMap FileEntry.chunks ↔
      h ∈ m.chunkRefs.map ChunkReference.hash
  allWritten : ∀ v m, AdapterCall.writeManifest v m ∈ calls →
    ∀ ref ∈ m.chunkRefs, ∃ e, AdapterCall.writeChunk ref.hash e ∈ calls

/-- JSON reads back the metadata and every manifest that is written. -/
structure Lossless (repositoryId : String) (created : DateTime)
    (calls : List AdapterCall) : Prop where
  metadata : json.metadataFromSlice
    (json.metadataToVec (newMetadata repositoryId created)) =
      .ok (newMetadata repositoryId created)
  manifest : ∀ v m, AdapterCall.writeManifest v m ∈ calls →
    json.manifestFromSlice (json.manifestToVec (manifestToCompat m)) =
      .ok (manifestToCompat m)

/-- The check reports no finding. -/
def ChecksClean (orders : CheckOrders) (now : DateTime)
    (repo : CompatibleRepository) : Prop :=
  ∃ report, selfCheck json orders now repo = .ok report ∧ report.findings = []

/-- Every chunk that was written is referenced by the manifest of a version, and
what was first written for it has the SHA-256 hash that it is named after. -/
def NamedBySha256 (calls : List AdapterCall) : Prop :=
  ∀ h e, firstWritten calls h = some e →
    (∃ v m, currentManifest calls v = some m ∧
      h ∈ m.chunkRefs.map ChunkReference.hash) ∧
    Sha256.hash (Agent.Json.encryptedChunkBytes e) = h.digest

end Definitions

section Runs

variable {json : CompatJson} {repo : CompatibleRepository}
variable {calls : List AdapterCall} {repositoryId : String} {now : DateTime}

theorem firstWritten_concat (calls : List AdapterCall) (c : AdapterCall)
    (h : ChunkHash) :
    firstWritten (calls ++ [c]) h = (firstWritten calls h).or (c.chunkOf h) := by
  rw [firstWritten, List.findSome?_append]
  simp [firstWritten]

theorem currentManifest_concat (calls : List AdapterCall) (c : AdapterCall)
    (v : VersionId) :
    currentManifest (calls ++ [c]) v = (c.manifestOf v).or (currentManifest calls v) := by
  rw [currentManifest, List.reverse_concat, List.findSome?_cons]
  cases c.manifestOf v with
  | none =>
      rfl
  | some m =>
      rfl

theorem afterCalls_concat (calls : List AdapterCall) (c : AdapterCall) :
    afterCalls json repo (calls ++ [c]) = c.after json (afterCalls json repo calls) := by
  rw [afterCalls, List.foldl_concat]
  rfl

/-- No call changes the metadata. -/
theorem metadata_afterCalls : (afterCalls json repo calls).metadata = repo.metadata := by
  induction calls using List.reverseRecOn with
  | nil =>
      rfl
  | append_singleton calls c ih =>
      rw [afterCalls_concat, ← ih]
      cases c with
      | writeChunk hash e =>
          exact metadata_writeCompatChunk _ hash (Agent.Json.encryptedChunkBytes e)
      | writeManifest v m =>
          rfl

/-- The file of a chunk has what was first written for it. -/
theorem chunkEntry_afterCalls (h : ChunkHash) :
    (afterCalls json (init json repositoryId now) calls).chunkEntry h =
      (firstWritten calls h).map fun e => .file (Agent.Json.encryptedChunkBytes e) := by
  induction calls using List.reverseRecOn with
  | nil =>
      exact dblock_init repositoryId now _ _
  | append_singleton calls c ih =>
      rw [afterCalls_concat, firstWritten_concat]
      cases c with
      | writeManifest v m =>
          rw [AdapterCall.chunkOf, Option.or_none, ← ih]
          rfl
      | writeChunk hash e =>
          have hwrite := dblock_writeCompatChunk
            (afterCalls json (init json repositoryId now) calls) hash
            (Agent.Json.encryptedChunkBytes e) (bucketOf h) (dblockName h)
          refine hwrite.trans ?_
          by_cases hsame : hash = h
          · subst hsame
            rw [if_pos ⟨rfl, rfl⟩, ih, AdapterCall.chunkOf, if_pos rfl]
            cases firstWritten calls hash with
            | none =>
                rfl
            | some e =>
                rfl
          · rw [if_neg fun heq => hsame (dblockName_injective heq.2).symm,
              AdapterCall.chunkOf, if_neg hsame, Option.or_none]
            exact ih

/-- All names in the directories for chunks are names of chunks. -/
theorem exists_hash_of_dblock {bucket name : String}
    (hsome : ((afterCalls json (init json repositoryId now) calls).dblock bucket
      name).isSome) :
    ∃ h, bucket = bucketOf h ∧ name = dblockName h := by
  induction calls using List.reverseRecOn with
  | nil =>
      rw [afterCalls, List.foldl_nil, dblock_init] at hsome
      cases hsome
  | append_singleton calls c ih =>
      rw [afterCalls_concat] at hsome
      cases c with
      | writeManifest v m =>
          exact ih hsome
      | writeChunk hash e =>
          have hwrite := dblock_writeCompatChunk
            (afterCalls json (init json repositoryId now) calls) hash
            (Agent.Json.encryptedChunkBytes e) bucket name
          by_cases hsame : bucket = bucketOf hash ∧ name = dblockName hash
          · exact ⟨hash, hsame⟩
          · rw [if_neg hsame] at hwrite
            exact ih (hwrite ▸ hsome)

/-- The file of a version has its current manifest. -/
theorem lookup_dlists_afterCalls (v : VersionId) :
    (afterCalls json (init json repositoryId now) calls).dlists.lookup
        (dlistName (uuidText v.uuid)) =
      (currentManifest calls v).map fun m => json.manifestToVec (manifestToCompat m) := by
  induction calls using List.reverseRecOn with
  | nil =>
      rfl
  | append_singleton calls c ih =>
      rw [afterCalls_concat, currentManifest_concat]
      cases c with
      | writeChunk hash e =>
          rw [AdapterCall.manifestOf, Option.none_or, ← ih]
          exact congrArg (AList.lookup (dlistName (uuidText v.uuid)))
            (dlists_writeCompatChunk _ hash (Agent.Json.encryptedChunkBytes e))
      | writeManifest v' m =>
          refine (lookup_dlists_writeCompatManifest json _ _ _ _).trans ?_
          by_cases hsame : v' = v
          · subst hsame
            rw [if_pos rfl, AdapterCall.manifestOf, if_pos rfl]
            rfl
          · have hname : dlistName (uuidText v.uuid) ≠ dlistName (uuidText v'.uuid) := by
              intro heq
              have huuid := uuidText_injective (dlistName_injective heq)
              exact hsame (congrArg VersionId.mk huuid.symm)
            rw [if_neg hname, AdapterCall.manifestOf, if_neg hsame]
            exact ih

/-- All manifest files belong to versions. -/
theorem exists_version_of_dlists {name : String}
    (hsome : ((afterCalls json (init json repositoryId now) calls).dlists.lookup
      name).isSome) :
    ∃ v : VersionId, name = dlistName (uuidText v.uuid) := by
  induction calls using List.reverseRecOn with
  | nil =>
      cases hsome
  | append_singleton calls c ih =>
      rw [afterCalls_concat] at hsome
      cases c with
      | writeChunk hash e =>
          refine ih ?_
          rw [← dlists_writeCompatChunk _ hash (Agent.Json.encryptedChunkBytes e)]
          exact hsome
      | writeManifest v m =>
          by_cases hsame : name = dlistName (uuidText v.uuid)
          · exact ⟨v, hsame⟩
          · have hwrite := lookup_dlists_writeCompatManifest json
              (afterCalls json (init json repositoryId now) calls)
              (uuidText v.uuid) (manifestToCompat m) name
            rw [if_neg hsame] at hwrite
            exact ih (hwrite ▸ hsome)

theorem mem_of_currentManifest {v : VersionId} {m : Manifest}
    (h : currentManifest calls v = some m) :
    AdapterCall.writeManifest v m ∈ calls := by
  obtain ⟨c, hc, hm⟩ := List.exists_of_findSome?_eq_some h
  cases c with
  | writeChunk hash e =>
      cases hm
  | writeManifest v' m' =>
      rw [AdapterCall.manifestOf] at hm
      split at hm
      · next hsame =>
          cases hm
          rw [← hsame]
          exact List.mem_reverse.mp hc
      · cases hm

theorem exists_firstWritten {h : ChunkHash} {e : EncryptedChunk}
    (hmem : AdapterCall.writeChunk h e ∈ calls) :
    ∃ first, firstWritten calls h = some first := by
  refine Option.isSome_iff_exists.mp (List.findSome?_isSome_iff.mpr
    ⟨AdapterCall.writeChunk h e, hmem, ?_⟩)
  rw [AdapterCall.chunkOf, if_pos rfl]
  rfl

end Runs

section Main

variable {json : CompatJson} {orders : CheckOrders} {calls : List AdapterCall}
variable {repositoryId : String} {created now : DateTime}

/-- The manifest file of a version is that of its current manifest. -/
theorem exists_current_of_lookup {name : String} {data : Bytes}
    (hlookup : (afterCalls json (init json repositoryId created)
      calls).dlists.lookup name = some data) :
    ∃ v m, name = dlistName (uuidText v.uuid) ∧ currentManifest calls v = some m ∧
      data = json.manifestToVec (manifestToCompat m) := by
  obtain ⟨v, rfl⟩ := exists_version_of_dlists
    (Option.isSome_iff_exists.mpr ⟨data, hlookup⟩)
  rw [lookup_dlists_afterCalls] at hlookup
  obtain ⟨m, hm, rfl⟩ := Option.map_eq_some_iff.mp hlookup
  exact ⟨v, m, rfl, hm, rfl⟩

theorem mem_chunks_manifestToCompat {m : Manifest} {h : ChunkHash} :
    h ∈ fileChunks (manifestToCompat m) ↔ h ∈ m.files.flatMap FileEntry.chunks := by
  rw [fileChunks, manifestToCompat, List.flatMap_map]
  rfl

/-- The chunks that the check knows of are those of the current manifests. -/
theorem mem_referenced_afterCalls (hlossless : Lossless json repositoryId created calls)
    (hprotocol : FollowsProtocol calls) {h : ChunkHash} :
    h ∈ (referencedChunks json orders
        (afterCalls json (init json repositoryId created) calls)).map Prod.fst ↔
      ∃ v m, currentManifest calls v = some m ∧
        h ∈ m.chunkRefs.map ChunkReference.hash := by
  rw [mem_referencedChunks]
  constructor
  · rintro ⟨name, data, hlookup, hmem⟩
    obtain ⟨v, m, rfl, hm, rfl⟩ := exists_current_of_lookup hlookup
    have hcall := mem_of_currentManifest hm
    rw [dlistChunks_eq (hlossless.manifest v m hcall)] at hmem
    simp only [List.map_map, Function.comp_def, List.map_id', List.mem_append,
      mem_chunks_manifestToCompat, hprotocol.sameChunks v m hcall] at hmem
    exact ⟨v, m, hm, hmem.elim id id⟩
  · rintro ⟨v, m, hm, hmem⟩
    have hcall := mem_of_currentManifest hm
    refine ⟨dlistName (uuidText v.uuid), json.manifestToVec (manifestToCompat m),
      ?_, ?_⟩
    · rw [lookup_dlists_afterCalls, hm]
      rfl
    · rw [dlistChunks_eq (hlossless.manifest v m hcall)]
      simp only [List.map_map, Function.comp_def, List.map_id', List.mem_append]
      exact Or.inr hmem

/-- The check reports nothing exactly if it finds nothing. -/
theorem checksClean_iff (hlossless : Lossless json repositoryId created calls) :
    ChecksClean json orders now
        (afterCalls json (init json repositoryId created) calls) ↔
      allFindings json orders
        (afterCalls json (init json repositoryId created) calls) = .ok [] := by
  have hread : ∃ metadata, readMetadata json
      (afterCalls json (init json repositoryId created) calls) = .ok metadata := by
    rw [readMetadata, metadata_afterCalls]
    simp only [init, hlossless.metadata]
    exact ⟨_, rfl⟩
  obtain ⟨metadata, hmetadata⟩ := hread
  rw [ChecksClean, selfCheck, hmetadata]
  constructor
  · rintro ⟨report, hreport, hnone⟩
    cases hfindings : allFindings json orders
        (afterCalls json (init json repositoryId created) calls) with
    | error e =>
        rw [hfindings] at hreport
        cases hreport
    | ok findings =>
        rw [hfindings] at hreport
        cases hreport
        exact congrArg Except.ok hnone
  · intro hnone
    rw [hnone]
    exact ⟨_, rfl, rfl⟩

/-- If nothing is found, all chunks are referenced and named after the SHA-256
hash of their files. -/
theorem namedBySha256_of_checksClean
    (hlossless : Lossless json repositoryId created calls)
    (hprotocol : FollowsProtocol calls)
    (hclean : ChecksClean json orders now
      (afterCalls json (init json repositoryId created) calls)) :
    NamedBySha256 calls := by
  rw [checksClean_iff hlossless, allFindings_eq_ok_nil_iff] at hclean
  obtain ⟨-, hchunks, hdblocks⟩ := hclean
  intro h e hfirst
  have hfile : (afterCalls json (init json repositoryId created) calls).chunkEntry h =
      some (.file (Agent.Json.encryptedChunkBytes e)) := by
    rw [chunkEntry_afterCalls, hfirst]
    rfl
  have hreferenced := dblockFindings_eq_nil_iff.mp
    (hdblocks (bucketOf h) (dblockName h) (Option.isSome_iff_exists.mpr ⟨_, hfile⟩))
  refine ⟨(mem_referenced_afterCalls hlossless hprotocol).mp hreferenced, ?_⟩
  obtain ⟨data, hdata, hhash⟩ :=
    chunkFindings_eq_ok_nil_iff.mp (hchunks h hreferenced)
  rw [DblockEntry.file.inj (Option.some.inj (hfile.symm.trans hdata))]
  exact hhash

theorem checksClean_of_namedBySha256
    (hlossless : Lossless json repositoryId created calls)
    (hprotocol : FollowsProtocol calls) (hnamed : NamedBySha256 calls) :
    ChecksClean json orders now
      (afterCalls json (init json repositoryId created) calls) := by
  rw [checksClean_iff hlossless, allFindings_eq_ok_nil_iff]
  refine ⟨fun name data hlookup => ?_, fun h hreferenced => ?_,
    fun bucket name hsome => ?_⟩
  · obtain ⟨v, m, rfl, hm, rfl⟩ := exists_current_of_lookup hlookup
    have hcall := mem_of_currentManifest hm
    refine dlistFindings_eq_nil (hlossless.manifest v m hcall) fun h => ?_
    rw [mem_chunks_manifestToCompat]
    exact hprotocol.sameChunks v m hcall h
  · obtain ⟨v, m, hm, hmem⟩ :=
      (mem_referenced_afterCalls hlossless hprotocol).mp hreferenced
    obtain ⟨ref, href, rfl⟩ := List.mem_map.mp hmem
    obtain ⟨e', he'⟩ := hprotocol.allWritten v m (mem_of_currentManifest hm) ref href
    obtain ⟨e, hfirst⟩ := exists_firstWritten he'
    refine chunkFindings_eq_ok_nil_iff.mpr
      ⟨Agent.Json.encryptedChunkBytes e, ?_, (hnamed ref.hash e hfirst).2⟩
    rw [chunkEntry_afterCalls, hfirst]
    rfl
  · obtain ⟨h, rfl, rfl⟩ := exists_hash_of_dblock hsome
    have hfile : ((firstWritten calls h).map fun e =>
        DblockEntry.file (Agent.Json.encryptedChunkBytes e)).isSome := by
      rw [← chunkEntry_afterCalls]
      exact hsome
    rw [Option.isSome_map] at hfile
    obtain ⟨e, hfirst⟩ := Option.isSome_iff_exists.mp hfile
    exact dblockFindings_eq_nil_iff.mpr
      ((mem_referenced_afterCalls hlossless hprotocol).mpr (hnamed h e hfirst).1)

/-- What was written through the adapter checks clean exactly if all chunks are
referenced and have the SHA-256 hash that they are named after. -/
theorem checksClean_iff_namedBySha256 (json : CompatJson) (orders : CheckOrders)
    (repositoryId : String) (created now : DateTime) (calls : List AdapterCall)
    (hlossless : Lossless json repositoryId created calls)
    (hprotocol : FollowsProtocol calls) :
    ChecksClean json orders now
        (afterCalls json (init json repositoryId created) calls) ↔
      NamedBySha256 calls :=
  ⟨namedBySha256_of_checksClean hlossless hprotocol,
    checksClean_of_namedBySha256 hlossless hprotocol⟩

end Main

section Example

open BackupEngine

/-- A version of one file with the content `abc`. -/
def abcManifest : Manifest where
  versionId := (exampleExecution 4).versionId
  timestamp := exampleTime
  parentVersionId := none
  versionNumber := 1
  backupType := .full
  files := [{ exampleFile "/data/abc" 3 with
    chunks := [abcHash]
    fileHash := Sha256.hash abc }]
  chunkRefs := [{
    hash := abcHash
    versionId := (exampleExecution 4).versionId
    filePath := "/data/abc"
    offset := 0 }]
  hashes := {
    manifestHash := zeroDigest
    fileIndexHash := zeroDigest
    chunkIndexHash := zeroDigest
    repoHash := zeroDigest }
  chunkLocations := ∅

/-- The chunk is written under the BLAKE3 hash of its data, then the manifest. -/
def abcCalls : List AdapterCall :=
  [.writeChunk abcHash abcEncrypted,
    .writeManifest (exampleExecution 4).versionId abcManifest]

def abcJson : CompatJson :=
  Json.only (newMetadata "test-adapter" exampleTime) (manifestToCompat abcManifest)

theorem followsProtocol_abcCalls : FollowsProtocol abcCalls where
  sameChunks := by
    intro v m hmem h
    cases hmem with
    | tail _ hmem =>
        cases List.mem_singleton.mp hmem
        rfl
  allWritten := by
    intro v m hmem ref href
    cases hmem with
    | tail _ hmem =>
        cases List.mem_singleton.mp hmem
        cases List.mem_singleton.mp href
        exact ⟨abcEncrypted, List.mem_cons_self⟩

theorem lossless_abcCalls : Lossless abcJson "test-adapter" exampleTime abcCalls where
  metadata := by
    simp only [abcJson, Json.only, if_pos]
  manifest := by
    intro v m hmem
    cases hmem with
    | tail _ hmem =>
        cases List.mem_singleton.mp hmem
        simp only [abcJson, Json.only, if_pos]

def asStoredOrders : CheckOrders where
  files := .asStored
  buckets := .asStored
  entries := .asStored
  chunks := .asStored

/-- The file of the chunk does not have the hash that it is named after. -/
theorem sha256_abcEncrypted_ne :
    Sha256.hash (Agent.Json.encryptedChunkBytes abcEncrypted) ≠ abcHash.digest := by
  decide +kernel

theorem checksClean_iff_abcCalls :
    ChecksClean abcJson asStoredOrders exampleTime
        (afterCalls abcJson (init abcJson "test-adapter" exampleTime) abcCalls) ↔
      NamedBySha256 abcCalls :=
  checksClean_iff_namedBySha256 abcJson asStoredOrders "test-adapter" exampleTime
    exampleTime abcCalls lossless_abcCalls followsProtocol_abcCalls

/-- An undamaged repository of one version does not pass its own check. -/
theorem not_checksClean_abcCalls :
    FollowsProtocol abcCalls ∧
      ¬ ChecksClean abcJson asStoredOrders exampleTime
        (afterCalls abcJson (init abcJson "test-adapter" exampleTime) abcCalls) := by
  refine ⟨followsProtocol_abcCalls, fun hclean => ?_⟩
  have hnamed := namedBySha256_of_checksClean lossless_abcCalls
    followsProtocol_abcCalls hclean
  have hfirst : firstWritten abcCalls abcHash = some abcEncrypted := by
    rw [firstWritten, abcCalls, List.findSome?_cons, AdapterCall.chunkOf, if_pos rfl]
  exact sha256_abcEncrypted_ne (hnamed abcHash abcEncrypted hfirst).2

end Example

end CompatibilityRepoAdapter

end Compat
end HyperBackup
