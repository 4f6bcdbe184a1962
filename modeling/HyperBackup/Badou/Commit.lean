import HyperBackup.Badou.Snapshot
import HyperBackup.Badou.Version

/-!
# Committing a backup

`commit_backup` in two phases: the version is created, its chunks and its
manifest are written, every chunk is read back and compared, and only then
are the staged files moved and the version sealed.  An error on the way ends
the commit and leaves what has been done so far.
-/

namespace HyperBackup
namespace Badou

open Lib Lib.Program

inductive JournalOpType
  | commitStep
  | gcStep
  | verifyStep
  | stateTransition
  | recovery
deriving DecidableEq

structure BadouJournalEntry where
  opType : JournalOpType
  timestamp : DateTime
  jobId : Uuid
  payload : Bytes
  committed : Bool
deriving DecidableEq

/-- An opened repository.  The chunk store has an index of its own; `index`
is a second one, loaded from the same file. -/
structure OpenRepo where
  store : Store
  catalog : Catalog
  index : BadouIndex
  journal : List BadouJournalEntry

def OpenRepo.empty : OpenRepo :=
  { store := .empty, catalog := .empty, index := .inMemory, journal := [] }

inductive CommitError
  | versionOps (e : VersionOpsError)
  | chunkStore (e : ChunkStoreError)
  | snapshotStore (e : SnapshotStoreError)
deriving DecidableEq

def CommitError.message : CommitError → String
  | .versionOps e => "version ops error: " ++ e.message
  | .chunkStore e => "chunk store error: " ++ e.message
  | .snapshotStore e => "snapshot store error: " ++ e.message

inductive CommitResult
  | success (versionId : VersionId) (snapshotId : Uuid)
  | failure (versionId : VersionId) (reason : String)
deriving DecidableEq

/-- The fresh identifiers and the time of one commit. -/
structure CommitDraws where
  now : DateTime
  versionId : VersionId
  snapshotId : Uuid
deriving DecidableEq

/-- What a commit works on: the repository and the version table. -/
structure CommitState where
  repo : OpenRepo
  versions : VersionOps

namespace CommitBackup

abbrev CommitM (α : Type) : Type :=
  EStateM CommitError CommitState α

def onVersions {α : Type} (x : EStateM VersionOpsError VersionOps α) :
    CommitM α :=
  zoom (fun s => s.versions) (fun v s => { s with versions := v }) .versionOps x

def onStore {α : Type} (x : EStateM ChunkStoreError Store α) : CommitM α :=
  zoom (fun s => s.repo.store)
    (fun st s => { s with repo := { s.repo with store := st } }) .chunkStore x

def onCatalog {α : Type} (x : EStateM SnapshotStoreError Catalog α) :
    CommitM α :=
  zoom (fun s => s.repo.catalog)
    (fun c s => { s with repo := { s.repo with catalog := c } })
    .snapshotStore x

def modifyCatalog (f : Catalog → Catalog) : CommitM Unit :=
  modify fun s => { s with repo := { s.repo with catalog := f s.repo.catalog } }

/-- Append a record to the journal of the repository. -/
def append
    (draws : CommitDraws) (opType : JournalOpType) (payload : String)
    (committed : Bool) : CommitM Unit :=
  let entry : BadouJournalEntry :=
    { opType := opType
      timestamp := draws.now
      jobId := draws.versionId.uuid
      payload := Hex.utf8 payload
      committed := committed }
  modify fun s =>
    { s with repo := { s.repo with journal := s.repo.journal ++ [entry] } }

/-- Create the version and its staging area; a staging area that is already
there makes the commit fail. -/
def beginCommit
    (draws : CommitDraws) (repoId : RepositoryId)
    (parentVersionId : Option VersionId) :
    CommitM (Except String Version) := do
  let version ← onVersions
    (VersionOps.createVersion draws.now draws.versionId draws.snapshotId
      repoId parentVersionId)
  append draws .commitStep "start" false
  let s ← get
  match (Catalog.createStaging draws.versionId.uuid).run s.repo.catalog with
  | .error e _ =>
      return .error ("staging creation failed: " ++ e.message)
  | .ok () catalog =>
      modifyCatalog fun _ => catalog
      let _ ← onVersions (VersionOps.startWriting draws.versionId)
      return .ok version

/-- Read every chunk back; is each what was to be written? -/
def verifyChunks (blake3 : Bytes → ChunkHash) (st : Store) :
    List (ChunkHash × Bytes) → Except ChunkStoreError Bool
  | [] => .ok true
  | (chunkHash, data) :: rest => do
      let stored ← ChunkStore.readChunk blake3 st chunkHash
      if stored ≠ data then return false
      verifyChunks blake3 st rest

def failCommit (draws : CommitDraws) (reason : String) : CommitM Unit := do
  modifyCatalog (Catalog.cleanupStaging draws.versionId.uuid)
  append draws .recovery reason false

/-- Move the staged files of a verified commit and seal its version. -/
def sealCommit
    (blake3 : Bytes → ChunkHash) (json : Json) (draws : CommitDraws)
    (version : Version) (manifest : Manifest) (snapshot : Snapshot) :
    CommitM CommitResult := do
  append draws .verifyStep "verified" false
  let _ ← onVersions (VersionOps.transition draws.versionId .committing)
  let snapshot : Snapshot :=
    { snapshot with
      snapshotId := version.snapshotId
      status := .writing
      verifyInfo :=
        { verified := true
          verifiedAt := some draws.now
          checksum := some (computeHash blake3 json manifest) } }
  modifyCatalog (Catalog.writeToStaging draws.versionId.uuid
    (SnapshotStore.snapshotName snapshot.snapshotId)
    (json.snapshotToVec snapshot))
  modifyCatalog (Catalog.atomicCommit draws.versionId.uuid)
  append draws .commitStep "staging_committed" false
  let _ ← onVersions (VersionOps.transition draws.versionId .sealed)
  let snapshot : Snapshot := { snapshot with status := .sealed }
  let _ ← onCatalog (SnapshotStore.writeSnapshot json snapshot)
  append draws .commitStep "sealed" true
  return .success draws.versionId snapshot.snapshotId

/-- Everything after the chunks have been written. -/
def finishCommit
    (blake3 : Bytes → ChunkHash) (json : Json) (draws : CommitDraws)
    (version : Version) (manifest : Manifest) (snapshot : Snapshot)
    (chunks : List (ChunkHash × Bytes)) : CommitM CommitResult := do
  modifyCatalog (Catalog.writeToStaging draws.versionId.uuid
    (ManifestStore.manifestName manifest.manifestId)
    (json.manifestToVec manifest))
  append draws .commitStep "chunks_written" false
  let _ ← onVersions (VersionOps.transition draws.versionId .verifying)
  let s ← get
  let verified ← ofResult .chunkStore (verifyChunks blake3 s.repo.store chunks)
  if ¬ verified then
    failCommit draws "chunk hash verification failed"
    return .failure draws.versionId "chunk hash verification failed"
  else
    sealCommit blake3 json draws version manifest snapshot

def commitBackup
    (layout : BadouDataLayout) (blake3 : Bytes → ChunkHash) (json : Json)
    (draws : CommitDraws) (repoId : RepositoryId)
    (parentVersionId : Option VersionId) (manifest : Manifest)
    (snapshot : Snapshot) (chunks : List (ChunkHash × Bytes)) :
    CommitM CommitResult := do
  match ← beginCommit draws repoId parentVersionId with
  | .error reason => return .failure draws.versionId reason
  | .ok version =>
      onStore (ChunkStore.writeChunks layout repoId chunks)
      finishCommit blake3 json draws version manifest snapshot chunks

section Specs

theorem run_onVersions {α : Type}
    {x : EStateM VersionOpsError VersionOps α} {s : CommitState}
    {a : α} {v : VersionOps} (h : x.run s.versions = .ok a v) :
    (onVersions x).run s = .ok a { s with versions := v } :=
  run_zoom_ok h

theorem run_onVersions_error {α : Type}
    {x : EStateM VersionOpsError VersionOps α} {s : CommitState}
    {e : VersionOpsError} {v : VersionOps} (h : x.run s.versions = .error e v) :
    (onVersions x).run s = .error (.versionOps e) { s with versions := v } :=
  run_zoom_error h

theorem run_onStore {α : Type}
    {x : EStateM ChunkStoreError Store α} {s : CommitState}
    {a : α} {st : Store} (h : x.run s.repo.store = .ok a st) :
    (onStore x).run s =
      .ok a { s with repo := { s.repo with store := st } } :=
  run_zoom_ok h

/-- A property of the state that a commit can only break by creating its
version or by writing its chunks. -/
structure Steady (json : Json) (draws : CommitDraws) (I : CommitState → Prop) :
    Prop where
  transition : ∀ target,
    Preserves (onVersions (VersionOps.transition draws.versionId target)) I
  modifyCatalog : ∀ f, Preserves (modifyCatalog f) I
  writeSnapshot : ∀ snapshot,
    Preserves (onCatalog (SnapshotStore.writeSnapshot json snapshot)) I
  append : ∀ opType payload committed,
    Preserves (append draws opType payload committed) I

/-- Of all steps of a commit only the chunk writes touch the store, and none
touches the second index. -/
theorem steady_store (json : Json) (draws : CommitDraws)
    (P : Store → BadouIndex → Prop) :
    Steady json draws fun s => P s.repo.store s.repo.index where
  transition := by
    intro target s h
    rw [onVersions, stateAfter_zoom]
    exact h
  modifyCatalog := fun _ _ h => h
  writeSnapshot := by
    intro snapshot s h
    rw [onCatalog, stateAfter_zoom]
    exact h
  append := fun _ _ _ _ h => h

/-- The version table is a matter of its transitions. -/
theorem steady_versions (json : Json) {draws : CommitDraws}
    {P : VersionOps → Prop}
    (h : ∀ target, Preserves (VersionOps.transition draws.versionId target) P) :
    Steady json draws fun s => P s.versions where
  transition := by
    intro target s hs
    rw [onVersions, stateAfter_zoom]
    exact h target _ hs
  modifyCatalog := fun _ _ h => h
  writeSnapshot := by
    intro snapshot s h
    rw [onCatalog, stateAfter_zoom]
    exact h
  append := fun _ _ _ _ h => h

section Steady

variable {json : Json} {draws : CommitDraws} {I : CommitState → Prop}

/-- What holds after the version was created holds after the start. -/
theorem beginCommit_of_createVersion (hI : Steady json draws I)
    {repoId : RepositoryId} {parent : Option VersionId} {s : CommitState}
    (hcreate : I (stateAfter (onVersions (VersionOps.createVersion draws.now
      draws.versionId draws.snapshotId repoId parent)) s)) :
    I (stateAfter (beginCommit draws repoId parent) s) := by
  unfold beginCommit
  rw [stateAfter_bind]
  cases outcome (onVersions (VersionOps.createVersion draws.now draws.versionId
      draws.snapshotId repoId parent)) s with
  | error e =>
      exact hcreate
  | ok version =>
      refine preserves_bind (hI.append _ _ _) (fun _ => ?_) _ hcreate
      refine preserves_bind (fun _ h => h) fun s => ?_
      split
      · exact preserves_pure _ _
      · refine preserves_bind (hI.modifyCatalog _) fun _ => ?_
        refine preserves_bind (hI.transition _) fun _ => ?_
        exact preserves_pure _ _

theorem preserves_sealCommit (hI : Steady json draws I)
    (blake3 : Bytes → ChunkHash) (version : Version) (manifest : Manifest)
    (snapshot : Snapshot) :
    Preserves (sealCommit blake3 json draws version manifest snapshot) I := by
  unfold sealCommit
  refine preserves_bind (hI.append _ _ _) fun _ => ?_
  refine preserves_bind (hI.transition _) fun _ => ?_
  refine preserves_bind (hI.modifyCatalog _) fun _ => ?_
  refine preserves_bind (hI.modifyCatalog _) fun _ => ?_
  refine preserves_bind (hI.append _ _ _) fun _ => ?_
  refine preserves_bind (hI.transition _) fun _ => ?_
  refine preserves_bind (hI.writeSnapshot _) fun _ => ?_
  refine preserves_bind (hI.append _ _ _) fun _ => ?_
  exact preserves_pure _ _

theorem preserves_finishCommit (hI : Steady json draws I)
    (blake3 : Bytes → ChunkHash) (version : Version) (manifest : Manifest)
    (snapshot : Snapshot) (chunks : List (ChunkHash × Bytes)) :
    Preserves
      (finishCommit blake3 json draws version manifest snapshot chunks) I := by
  unfold finishCommit
  refine preserves_bind (hI.modifyCatalog _) fun _ => ?_
  refine preserves_bind (hI.append _ _ _) fun _ => ?_
  refine preserves_bind (hI.transition _) fun _ => ?_
  refine preserves_bind (fun _ h => h) fun s => ?_
  refine preserves_bind (preserves_ofResult _ _ _) fun verified => ?_
  split
  · refine preserves_bind ?_ fun _ => preserves_pure _ _
    refine preserves_bind (hI.modifyCatalog _) fun _ => ?_
    exact hI.append _ _ _
  · exact preserves_sealCommit hI _ _ _ _

/-- What holds after the version was created, and is not broken by the chunks,
holds after the commit. -/
theorem commitBackup_of_createVersion (hI : Steady json draws I)
    {repoId : RepositoryId} {parent : Option VersionId}
    {layout : BadouDataLayout} {chunks : List (ChunkHash × Bytes)}
    {s : CommitState}
    (hcreate : I (stateAfter (onVersions (VersionOps.createVersion draws.now
      draws.versionId draws.snapshotId repoId parent)) s))
    (hwrite : Preserves
      (onStore (ChunkStore.writeChunks layout repoId chunks)) I)
    (blake3 : Bytes → ChunkHash) (manifest : Manifest) (snapshot : Snapshot) :
    I (stateAfter (commitBackup layout blake3 json draws repoId parent manifest
      snapshot chunks) s) := by
  have hbegin := beginCommit_of_createVersion hI hcreate
  unfold commitBackup
  rw [stateAfter_bind]
  cases outcome (beginCommit draws repoId parent) s with
  | error e =>
      exact hbegin
  | ok result =>
      cases result with
      | error reason =>
          exact hbegin
      | ok version =>
          exact preserves_bind hwrite
            (fun _ => preserves_finishCommit hI _ _ _ _ _) _ hbegin

end Steady

/-- A commit gets to write chunks if its parent exists and no staging area of
its version is left over. -/
def Admits
    (s : CommitState) (parent : Option VersionId) (v : VersionId) : Prop :=
  (∀ p ∈ parent, (s.versions.versions.lookup p).isSome) ∧
    s.repo.catalog.staging.lookup v.uuid = none

instance (s : CommitState) (parent : Option VersionId) (v : VersionId) :
    Decidable (Admits s parent v) :=
  decidable_of_iff
    ((parent.all fun p => (s.versions.versions.lookup p).isSome) = true ∧
      (s.repo.catalog.staging.lookup v.uuid).isNone = true) (by
    simp [Admits, Option.all_eq_true])

/-- An admitted commit starts with its version in writing. -/
theorem returns_beginCommit
    {draws : CommitDraws} {parent : Option VersionId} {s : CommitState}
    (repoId : RepositoryId) (h : Admits s parent draws.versionId) :
    Returns (beginCommit draws repoId parent) s fun result s' =>
      ∃ version version', result = .ok version ∧
        s'.versions.versions.lookup draws.versionId = some version' ∧
        version'.status = .writing ∧ s'.repo.store = s.repo.store ∧
        version.snapshotId = draws.snapshotId ∧
        s'.repo.catalog =
          { s.repo.catalog with
            staging := s.repo.catalog.staging.insert draws.versionId.uuid
              .empty } ∧
        s'.repo.journal =
          (stateAfter (append draws .commitStep "start" false) s).repo.journal := by
  obtain ⟨hparent, hstaging⟩ := h
  obtain ⟨version, ops', hcreate, hversions, hcreated, hsnapshot, -⟩ :=
    VersionOps.run_createVersion hparent draws.now draws.versionId
      draws.snapshotId repoId
  have hlookup : ops'.versions.lookup draws.versionId = some version := by
    simp [hversions]
  have hallowed : version.status.canTransitionTo .writing = true := by
    rw [hcreated]
    rfl
  have hstart := VersionOps.run_transition hlookup hallowed
  unfold beginCommit
  refine returns_bind_of_run (run_onVersions hcreate) ?_
  refine returns_bind_of_run rfl ?_
  refine returns_bind_of_run rfl ?_
  simp only [Catalog.run_createStaging_free hstaging]
  refine returns_bind_of_run rfl ?_
  refine returns_bind_of_run (run_onVersions hstart) ?_
  exact returns_pure
    ⟨version, _, rfl, AList.lookup_insert _, rfl, rfl, hsnapshot, rfl, rfl⟩

/-- A commit that is not admitted ends before its chunks. -/
theorem outcome_beginCommit_of_not_admits
    {draws : CommitDraws} {parent : Option VersionId} {s : CommitState}
    {version : Version} (repoId : RepositoryId)
    (h : ¬ Admits s parent draws.versionId) :
    outcome (beginCommit draws repoId parent) s ≠ .ok (.ok version) := by
  intro hout
  by_cases hparent : ∀ p ∈ parent, (s.versions.versions.lookup p).isSome
  · obtain ⟨created, ops', hcreate, -⟩ :=
      VersionOps.run_createVersion hparent draws.now draws.versionId
        draws.snapshotId repoId
    have htaken : s.repo.catalog.staging.lookup draws.versionId.uuid ≠ none :=
      fun hfree => h ⟨hparent, hfree⟩
    obtain ⟨dir, hstaging⟩ := Option.ne_none_iff_exists'.mp htaken
    simp only [outcome, beginCommit, EStateM.run_bind,
      run_onVersions hcreate, append, EStateM.run_modify, EStateM.run_get,
      Catalog.run_createStaging_taken hstaging, EStateM.run_pure] at hout
    cases hout
  · push Not at hparent
    obtain ⟨p, rfl, hp⟩ := hparent
    have hcreate := VersionOps.run_createVersion_error
      (by simpa using hp) draws.now draws.versionId draws.snapshotId repoId
    simp only [outcome, beginCommit, EStateM.run_bind,
      run_onVersions_error hcreate] at hout
    cases hout

variable {layout : BadouDataLayout} {blake3 : Bytes → ChunkHash} {json : Json}
variable {draws : CommitDraws} {repoId : RepositoryId}
variable {parent : Option VersionId} {manifest : Manifest}
variable {snapshot : Snapshot} {chunks : List (ChunkHash × Bytes)}
variable {s : CommitState}

/-- A commit that gets to its chunks writes all of them, however it ends. -/
theorem store_commitBackup_of_admits
    (h : Admits s parent draws.versionId) :
    (stateAfter (commitBackup layout blake3 json draws repoId parent manifest
      snapshot chunks) s).repo.store =
      stateAfter (ChunkStore.writeChunks layout repoId chunks) s.repo.store := by
  obtain ⟨result, s', hbegin, version, -, rfl, -, -, hstore, -⟩ :=
    returns_beginCommit repoId h
  have hwrites := ChunkStore.run_writeChunks layout repoId chunks s'.repo.store
  have hpreserved := preserves_finishCommit
    (steady_store json draws fun st _ => st = stateAfter
      (ChunkStore.writeChunks layout repoId chunks) s'.repo.store)
    blake3 version manifest snapshot chunks
  rw [← hstore]
  unfold commitBackup
  rw [stateAfter_bind_of_run hbegin, stateAfter_bind_of_run (run_onStore hwrites)]
  refine hpreserved _ ?_
  simp only [stateAfter, hwrites]

/-- A commit that does not get to its chunks leaves the store alone. -/
theorem store_commitBackup_of_not_admits
    (h : ¬ Admits s parent draws.versionId) :
    (stateAfter (commitBackup layout blake3 json draws repoId parent manifest
      snapshot chunks) s).repo.store = s.repo.store := by
  have hstore : (stateAfter (beginCommit draws repoId parent) s).repo.store =
      s.repo.store :=
    beginCommit_of_createVersion
      (steady_store json draws fun st _ => st = s.repo.store)
      (by rw [onVersions, stateAfter_zoom])
  unfold commitBackup
  rw [stateAfter_bind]
  cases hbegin : outcome (beginCommit draws repoId parent) s with
  | error e =>
      exact hstore
  | ok result =>
      cases result with
      | error reason =>
          exact hstore
      | ok version =>
          exact absurd hbegin (outcome_beginCommit_of_not_admits repoId h)

/-- The version of a commit moves on to an allowed status. -/
theorem returns_transition
    {version : Version} {v : VersionId} (target : VersionStatus)
    (hversion : s.versions.versions.lookup v = some version)
    (hok : version.status.canTransitionTo target = true) :
    Returns (onVersions (VersionOps.transition v target)) s fun _ s' =>
      s'.versions.versions.lookup v = some { version with status := target } ∧
        s'.repo = s.repo :=
  ⟨_, _, run_onVersions (VersionOps.run_transition hversion hok),
    AList.lookup_insert _, rfl⟩

/-- A commit whose version is being verified can be sealed. -/
theorem returns_sealCommit
    {version version' : Version}
    (hversion : s.versions.versions.lookup draws.versionId = some version')
    (hverifying : version'.status = .verifying) :
    Returns (sealCommit blake3 json draws version manifest snapshot) s
      fun result _ => result = .success draws.versionId version.snapshotId := by
  unfold sealCommit
  refine returns_bind_of_run rfl ?_
  refine returns_bind (returns_transition .committing hversion
    (by rw [hverifying]; rfl)) ?_
  rintro _ s₁ ⟨hcommitting, -⟩
  refine returns_bind_of_run rfl ?_
  refine returns_bind_of_run rfl ?_
  refine returns_bind_of_run rfl ?_
  refine returns_bind (returns_transition .sealed hcommitting rfl) ?_
  rintro _ s₂ -
  refine returns_bind_of_run rfl ?_
  refine returns_bind_of_run rfl ?_
  exact returns_pure rfl

/-- After the chunks are written a commit succeeds exactly if all of them can
be read back. -/
theorem outcome_finishCommit
    {version version' : Version}
    (hversion : s.versions.versions.lookup draws.versionId = some version')
    (hwriting : version'.status = .writing) :
    (∃ v id, outcome (finishCommit blake3 json draws version manifest snapshot
      chunks) s = .ok (.success v id)) ↔
      verifyChunks blake3 s.repo.store chunks = .ok true := by
  constructor
  · rintro ⟨v, id, hout⟩
    have hrun := run_eq_ok_iff.mpr ⟨hout, rfl⟩
    unfold finishCommit at hrun
    obtain ⟨_, s₁, h₁, hrun⟩ := run_bind_eq_ok.mp hrun
    obtain ⟨_, s₂, h₂, hrun⟩ := run_bind_eq_ok.mp hrun
    obtain ⟨_, s₃, h₃, hrun⟩ := run_bind_eq_ok.mp hrun
    obtain ⟨_, s₄, h₄, hrun⟩ := run_bind_eq_ok.mp hrun
    obtain ⟨verified, s₅, h₅, hrun⟩ := run_bind_eq_ok.mp hrun
    obtain ⟨hverify, rfl⟩ := run_ofResult_eq_ok.mp h₅
    cases h₁
    cases h₂
    cases h₄
    have hrepo : s₃.repo.store = s.repo.store := by
      have hkept := (steady_store json draws
        fun st _ => st = s.repo.store).transition .verifying
      rw [← (run_eq_ok_iff.mp h₃).2]
      exact hkept _ rfl
    rw [hrepo] at hverify
    rw [hverify]
    cases verified with
    | true =>
        rfl
    | false =>
        obtain ⟨_, s₆, -, hrun⟩ := run_bind_eq_ok.mp hrun
        cases hrun
  · intro hverify
    have hreturns : Returns (finishCommit blake3 json draws version manifest
        snapshot chunks) s fun result _ =>
          result = .success draws.versionId version.snapshotId := by
      unfold finishCommit
      refine returns_bind_of_run rfl ?_
      refine returns_bind_of_run rfl ?_
      refine returns_bind (returns_transition .verifying hversion
        (by rw [hwriting]; rfl)) ?_
      rintro _ s₁ ⟨hlookup, hrepo⟩
      refine returns_bind_of_run rfl ?_
      have hstored : verifyChunks blake3 s₁.repo.store chunks = .ok true := by
        rw [hrepo]
        exact hverify
      refine returns_bind_of_run (run_ofResult_eq_ok.mpr ⟨hstored, rfl⟩) ?_
      exact returns_sealCommit hlookup rfl
    obtain ⟨result, hout, rfl⟩ := exists_of_returns hreturns
    exact ⟨_, _, hout⟩

/-- A commit succeeds exactly if it gets to its chunks and can read all of
them back. -/
theorem outcome_commitBackup :
    (∃ v id, outcome (commitBackup layout blake3 json draws repoId parent
      manifest snapshot chunks) s = .ok (.success v id)) ↔
      Admits s parent draws.versionId ∧
        verifyChunks blake3 (stateAfter (ChunkStore.writeChunks layout repoId
          chunks) s.repo.store) chunks = .ok true := by
  by_cases h : Admits s parent draws.versionId
  · obtain ⟨result, s', hbegin, version, version', rfl, hversion, hwriting,
      hstore, -⟩ := returns_beginCommit repoId h
    have hwrites := ChunkStore.run_writeChunks layout repoId chunks s'.repo.store
    have hafter : stateAfter (ChunkStore.writeChunks layout repoId chunks)
        s'.repo.store = chunks.foldl (fun st c =>
          stateAfter (ChunkStore.writeChunk layout repoId c.1 c.2) st)
          s'.repo.store := by
      simp only [stateAfter, hwrites]
    rw [← hstore, hafter]
    unfold commitBackup
    rw [outcome_bind_of_run hbegin, and_iff_right h,
      outcome_bind_of_run (run_onStore hwrites)]
    exact outcome_finishCommit hversion hwriting
  · refine iff_of_false ?_ (fun hboth => h hboth.1)
    rintro ⟨v, id, hout⟩
    have hrun := run_eq_ok_iff.mpr ⟨hout, rfl⟩
    unfold commitBackup at hrun
    obtain ⟨result, s₁, hbegin, hrun⟩ := run_bind_eq_ok.mp hrun
    cases result with
    | error reason =>
        cases hrun
    | ok version =>
        exact outcome_beginCommit_of_not_admits repoId h
          (run_eq_ok_iff.mp hbegin).1

/-- Verifying succeeds if every chunk is read back as it was to be written. -/
theorem verifyChunks_eq_ok_true_iff
    {st : Store} (chunks : List (ChunkHash × Bytes)) :
    verifyChunks blake3 st chunks = .ok true ↔
      ∀ c ∈ chunks, ChunkStore.readChunk blake3 st c.1 = .ok c.2 := by
  induction chunks with
  | nil =>
      simp [verifyChunks]
  | cons c chunks ih =>
      rw [verifyChunks, List.forall_mem_cons]
      cases hread : ChunkStore.readChunk blake3 st c.1 with
      | error e =>
          simp [bind, Except.bind]
      | ok stored =>
          by_cases hd : stored = c.2
          · simpa [bind, Except.bind, hd] using ih
          · simp [bind, Except.bind, hd, pure, Except.pure]

/-- No commit touches the second index. -/
theorem index_commitBackup :
    (stateAfter (commitBackup layout blake3 json draws repoId parent manifest
      snapshot chunks) s).repo.index = s.repo.index := by
  refine commitBackup_of_createVersion
    (steady_store json draws fun _ index => index = s.repo.index) ?_ ?_ _ _ _
  · rw [onVersions, stateAfter_zoom]
  · intro s' h
    rw [onStore, stateAfter_zoom]
    exact h

/-- The snapshot as a commit writes it, with the given status. -/
def committedSnapshot
    (blake3 : Bytes → ChunkHash) (json : Json) (draws : CommitDraws)
    (manifest : Manifest) (snapshot : Snapshot) (status : SnapshotStatus) :
    Snapshot :=
  { snapshot with
    snapshotId := draws.snapshotId
    status := status
    verifyInfo :=
      { verified := true
        verifiedAt := some draws.now
        checksum := some (computeHash blake3 json manifest) } }

@[simp] theorem status_committedSnapshot (status : SnapshotStatus) :
    (committedSnapshot blake3 json draws manifest snapshot status).status =
      status :=
  rfl

/-- What a successful commit has made of the catalog. -/
structure Publishes
    (blake3 : Bytes → ChunkHash) (json : Json) (draws : CommitDraws)
    (manifest : Manifest) (snapshot : Snapshot) (c c' : Catalog) : Prop where
  manifests : ∀ name, c'.manifests.lookup name =
    if name = ManifestStore.manifestName manifest.manifestId then
      some (json.manifestToVec manifest)
    else c.manifests.lookup name
  snapshots : ∀ name, c'.snapshots.lookup name =
    if name = SnapshotStore.snapshotName draws.snapshotId then
      some (json.snapshotToVec
        (committedSnapshot blake3 json draws manifest snapshot .sealed))
    else if name = SnapshotStore.stagingName draws.snapshotId then none
    else c.snapshots.lookup name
  staging : ∀ v, c'.staging.lookup v =
    if v = draws.versionId.uuid then none else c.staging.lookup v

/-- A step on the version table leaves the catalog alone. -/
theorem ensures_onVersions {α : Type}
    (x : EStateM VersionOpsError VersionOps α) :
    Ensures (onVersions x) s fun _ s' => s'.repo.catalog = s.repo.catalog := by
  intro a s' hrun
  rw [← (run_eq_ok_iff.mp hrun).2, onVersions, stateAfter_zoom]

theorem ensures_append (opType : JournalOpType) (payload : String)
    (committed : Bool) :
    Ensures (append draws opType payload committed) s
      fun _ s' => s'.repo.catalog = s.repo.catalog := by
  intro a s' hrun
  cases hrun
  rfl

theorem ensures_modifyCatalog (f : Catalog → Catalog) :
    Ensures (modifyCatalog f) s
      fun _ s' => s'.repo.catalog = f s.repo.catalog := by
  intro a s' hrun
  cases hrun
  rfl

/-- A snapshot that is written stands under its name. -/
theorem ensures_writeSnapshot (snapshot : Snapshot) :
    Ensures (onCatalog (SnapshotStore.writeSnapshot json snapshot)) s
      fun _ s' => s'.repo.catalog =
        { s.repo.catalog with
          snapshots := SnapshotStore.writeAndRename
            (SnapshotStore.stagingName snapshot.snapshotId)
            (SnapshotStore.snapshotName snapshot.snapshotId)
            (json.snapshotToVec snapshot) s.repo.catalog.snapshots } := by
  intro a s' hrun
  have hstate := (run_eq_ok_iff.mp hrun).2
  rw [onCatalog, stateAfter_zoom] at hstate
  rw [← hstate]
  change stateAfter (SnapshotStore.writeSnapshot json snapshot) s.repo.catalog = _
  have hout := (run_eq_ok_iff.mp hrun).1
  rw [onCatalog, outcome_zoom] at hout
  by_cases hunverified :
      snapshot.status = .sealed ∧ ¬ snapshot.verifyInfo.verified
  · simp only [SnapshotStore.writeSnapshot, hunverified] at hout
    cases hout
  · simp only [SnapshotStore.writeSnapshot, hunverified, if_false]
    rfl

/-- Sealing publishes the snapshot and what has been staged. -/
theorem ensures_sealCommit {version : Version}
    (hsnapshot : version.snapshotId = draws.snapshotId) :
    Ensures (sealCommit blake3 json draws version manifest snapshot) s
      fun result s' => result = .success draws.versionId draws.snapshotId ∧
        s'.repo.catalog = s.repo.catalog.publish
          draws.versionId.uuid draws.snapshotId
          (json.snapshotToVec
            (committedSnapshot blake3 json draws manifest snapshot .writing))
          (json.snapshotToVec
            (committedSnapshot blake3 json draws manifest snapshot .sealed)) := by
  unfold sealCommit
  rw [hsnapshot]
  refine ensures_bind (ensures_append _ _ _) fun _ s₁ h₁ => ?_
  refine ensures_bind (ensures_onVersions _) fun _ s₂ h₂ => ?_
  refine ensures_bind (ensures_modifyCatalog _) fun _ s₃ h₃ => ?_
  refine ensures_bind (ensures_modifyCatalog _) fun _ s₄ h₄ => ?_
  refine ensures_bind (ensures_append _ _ _) fun _ s₅ h₅ => ?_
  refine ensures_bind (ensures_onVersions _) fun _ s₆ h₆ => ?_
  refine ensures_bind (ensures_writeSnapshot _) fun _ s₇ h₇ => ?_
  refine ensures_bind (ensures_append _ _ _) fun _ s₈ h₈ => ?_
  refine ensures_pure ⟨rfl, ?_⟩
  rw [h₈, h₇, h₆, h₅, h₄, h₃, h₂, h₁]
  rfl

/-- A commit that succeeds has staged its manifest and has been sealed. -/
theorem ensures_finishCommit {version : Version}
    (hsnapshot : version.snapshotId = draws.snapshotId) :
    Ensures (finishCommit blake3 json draws version manifest snapshot chunks) s
      fun result s' => ∀ v id, result = .success v id →
        result = .success draws.versionId draws.snapshotId ∧
        s'.repo.catalog = (s.repo.catalog.writeToStaging draws.versionId.uuid
          (ManifestStore.manifestName manifest.manifestId)
          (json.manifestToVec manifest)).publish
            draws.versionId.uuid draws.snapshotId
            (json.snapshotToVec
              (committedSnapshot blake3 json draws manifest snapshot .writing))
            (json.snapshotToVec
              (committedSnapshot blake3 json draws manifest snapshot
                .sealed)) := by
  unfold finishCommit
  refine ensures_bind (ensures_modifyCatalog _) fun _ s₁ h₁ => ?_
  refine ensures_bind (ensures_append _ _ _) fun _ s₂ h₂ => ?_
  refine ensures_bind (ensures_onVersions _) fun _ s₃ h₃ => ?_
  refine ensures_bind (P := fun _ s₄ => s₄ = s₃) ?_ fun _ s₄ h₄ => ?_
  · intro a s' hrun
    cases hrun
    rfl
  refine ensures_bind (P := fun _ s₅ => s₅ = s₄) ?_ fun verified s₅ h₅ => ?_
  · exact ensures_ofResult fun _ _ => rfl
  split
  · refine ensures_bind (P := fun _ _ => True) (fun _ _ _ => trivial) ?_
    intro _ s₆ _
    refine ensures_pure ?_
    intro v id hresult
    cases hresult
  · refine ensures_mono (ensures_sealCommit hsnapshot) ?_
    rintro result s' ⟨rfl, hcatalog⟩ v id _
    refine ⟨rfl, ?_⟩
    rw [hcatalog, h₅, h₄, h₃, h₂, h₁]

/-- A successful commit has the identifiers it has drawn and publishes its
manifest and its snapshot. -/
theorem publishes_of_success {v : VersionId} {id : Uuid}
    (h : outcome (commitBackup layout blake3 json draws repoId parent manifest
      snapshot chunks) s = .ok (.success v id)) :
    v = draws.versionId ∧ id = draws.snapshotId ∧
      Publishes blake3 json draws manifest snapshot s.repo.catalog
        (stateAfter (commitBackup layout blake3 json draws repoId parent
          manifest snapshot chunks) s).repo.catalog := by
  have hadmits := (outcome_commitBackup.mp ⟨v, id, h⟩).1
  obtain ⟨result, s₁, hbegin, version, -, rfl, -, -, -, hsnapshot, hcatalog,
      -⟩ :=
    returns_beginCommit repoId hadmits
  have hwrites := run_onStore (ChunkStore.run_writeChunks layout repoId chunks
    s₁.repo.store)
  generalize hs' : stateAfter (commitBackup layout blake3 json draws repoId
    parent manifest snapshot chunks) s = s'
  have hrun := run_eq_ok_iff.mpr ⟨h, hs'⟩
  unfold commitBackup at hrun
  obtain ⟨_, s₂, h₂, hrun⟩ := run_bind_eq_ok.mp hrun
  cases hbegin.symm.trans h₂
  obtain ⟨_, s₃, h₃, hrun⟩ := run_bind_eq_ok.mp hrun
  cases hwrites.symm.trans h₃
  obtain ⟨hresult, hfinal⟩ := ensures_finishCommit hsnapshot _ _ hrun v id rfl
  cases hresult
  have hempty : s₁.repo.catalog.staging.lookup draws.versionId.uuid =
      some .empty := by
    rw [hcatalog]
    exact AList.lookup_insert _
  obtain ⟨hmanifests, hsnapshots, hstaging⟩ := Catalog.publish_writeToStaging
    hempty manifest.manifestId draws.snapshotId _ _ _
  refine ⟨rfl, rfl, ?_, ?_, ?_⟩
  · intro name
    rw [hfinal, hmanifests, hcatalog]
  · intro name
    rw [hfinal, hsnapshots, hcatalog]
  · intro u
    rw [hfinal, hstaging, hcatalog, HashMap.lookup_insert_of]
    by_cases hu : u = draws.versionId.uuid
    · rw [if_pos hu, if_pos hu]
    · rw [if_neg hu, if_neg hu, if_neg hu]

/-- Whatever is said of the version table after the version was created, and
is not changed by transitions, holds after the commit. -/
theorem versions_of_createVersion {P : VersionOps → Prop}
    (htransition : ∀ target,
      Preserves (VersionOps.transition draws.versionId target) P)
    (hcreate : P (stateAfter (VersionOps.createVersion draws.now draws.versionId
      draws.snapshotId repoId parent) s.versions)) :
    P (stateAfter (commitBackup layout blake3 json draws repoId parent manifest
      snapshot chunks) s).versions := by
  refine commitBackup_of_createVersion (steady_versions json htransition) ?_ ?_
    blake3 manifest snapshot
  · rw [onVersions, stateAfter_zoom]
    exact hcreate
  · intro s' h
    rw [onStore, stateAfter_zoom]
    exact h

/-- After an admitted commit its version is in the table. -/
theorem registered_commitBackup (h : Admits s parent draws.versionId) :
    (stateAfter (commitBackup layout blake3 json draws repoId parent manifest
      snapshot chunks) s).versions.Registered repoId draws.versionId
        draws.snapshotId :=
  versions_of_createVersion
    (fun target => VersionOps.preserves_registered repoId draws.versionId
      draws.snapshotId draws.versionId target)
    (VersionOps.registered_createVersion h.1 draws.now repoId)

/-- Every version after a commit was there before, up to its status, or has
the identifiers of the commit. -/
theorem versions_commitBackup {Q : VersionId → Version → Prop}
    (hQ : ∀ w version status, Q w version → Q w { version with status := status })
    (hnew : ∀ version : Version, version.versionId = draws.versionId →
      version.snapshotId = draws.snapshotId → Q draws.versionId version)
    (h : ∀ w version, s.versions.versions.lookup w = some version → Q w version)
    (w : VersionId) (version : Version)
    (hlookup : (stateAfter (commitBackup layout blake3 json draws repoId parent
      manifest snapshot chunks) s).versions.versions.lookup w = some version) :
    Q w version := by
  refine versions_of_createVersion (fun target =>
    VersionOps.preserves_transition hQ draws.versionId target) ?_ w version hlookup
  exact VersionOps.preserves_createVersion hnew _ _ _ _ h

end Specs

end CommitBackup

end Badou
end HyperBackup
