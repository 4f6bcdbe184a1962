import HyperBackup.Badou.Gc
import HyperBackup.Lib.Ledger
import Mathlib.Data.List.Count

/-!
# Reference counts of a repository

The books of a repository are a ledger: every version that was committed and
not deleted, with its chunk list.  Over every sequence of commits, deletions
and collections on one index, the reference count of a chunk is the number of
its occurrences in the ledger, and a collection purges exactly the chunks
that the ledger no longer mentions and that wait for it.

A commit is one `write_chunk` per listed chunk, then
`register_version_chunks`.
-/

namespace HyperBackup
namespace Badou
namespace GcAccounting

open Lib Lib.Program

/-- A repository with the table of its versions. -/
structure Repo where
  store : Store
  versions : VersionOps

def Repo.new : Repo :=
  { store := .empty, versions := .new }

/-- The operations on a repository. -/
inductive Op
  | commit (now : DateTime) (v : VersionId) (snapshot : Uuid)
      (chunks : List (ChunkHash × Bytes))
  | deleteVersion (now : DateTime) (v : VersionId)
  | executeGc (order : IterOrder (String × ChunkIndexEntry))

section Runs

variable (layout : BadouDataLayout) (repoId : RepositoryId)

/-- Create a version, write its chunks and register the list. -/
def commit
    (now : DateTime) (v : VersionId) (snapshot : Uuid)
    (chunks : List (ChunkHash × Bytes)) (repo : Repo) : Repo :=
  let versions := stateAfter
    (VersionOps.createVersion now v snapshot repoId none) repo.versions
  let store := stateAfter
    (ChunkStore.writeChunks layout repoId chunks) repo.store
  { versions := versions
    store := store.onIndex fun index =>
      index.registerVersionChunks v.uuid (chunks.map fun c => c.1.toHex) }

def deleteVersion (now : DateTime) (v : VersionId) (repo : Repo) : Repo :=
  { repo with
    store := repo.store.onIndex
      (stateAfter (VersionDeleter.deleteVersion repo.versions now v)) }

def executeGc
    (order : IterOrder (String × ChunkIndexEntry)) (repo : Repo) : Repo :=
  { repo with store := stateAfter (GcExecutor.executeGc order) repo.store }

def step (repo : Repo) : Op → Repo
  | .commit now v snapshot chunks => commit layout repoId now v snapshot chunks repo
  | .deleteVersion now v => deleteVersion now v repo
  | .executeGc order => executeGc order repo

def run (repo : Repo) (ops : List Op) : Repo :=
  ops.foldl (step layout repoId) repo

/-- Which operations are in question: a committed version is fresh and its
counts stay below `2 ^ 32`; a deleted version exists and is not immutable. -/
def Permitted (repo : Repo) : Op → Prop
  | .commit _ v _ chunks =>
      repo.versions.versions.lookup v = none ∧
      ∀ h, (ChunkStore.refCount repo.store h).toNat +
        (chunks.map Prod.fst).count h < 2 ^ 32
  | .deleteVersion now v =>
      ∃ version, repo.versions.versions.lookup v = some version ∧
        VersionDeleter.isImmutable now version = false
  | .executeGc _ => True

/-- Every operation of a run is permitted in the state it starts from. -/
def PermittedRun (repo : Repo) : List Op → Prop
  | [] => True
  | op :: ops =>
      Permitted repo op ∧ PermittedRun (step layout repoId repo op) ops

end Runs

/-- The ledger after an operation. -/
def Op.post (ledger : Ledger VersionId ChunkHash) :
    Op → Ledger VersionId ChunkHash
  | .commit _ v _ chunks => ledger.insert v (chunks.map Prod.fst)
  | .deleteVersion _ v => ledger.erase v
  | .executeGc _ => ledger

/-- The versions committed and not deleted by a run, with their chunks. -/
def books (ops : List Op) : Ledger VersionId ChunkHash :=
  ops.foldl Op.post ∅

section Counts

variable {layout : BadouDataLayout} {repoId : RepositoryId}
variable {st st' : Store} {f : ChunkHash → Nat}

/-- The index counts as `f` says, and what has no reference is idle. -/
structure Counts
    (layout : BadouDataLayout) (repoId : RepositoryId)
    (st : Store) (f : ChunkHash → Nat) : Prop where
  addressed : st.Addressed layout repoId
  known : ∀ h e, st.index.lookup h.toHex = some e → e.refCount.toNat = f h
  unknown : ∀ h, st.index.lookup h.toHex = none → f h = 0
  idle : ∀ k e, st.index.lookup k = some e → e.refCount = 0 →
    e.status = .gcPending ∨ e.status = .purged

theorem counts_empty : Counts layout repoId .empty fun _ => 0 where
  addressed := by
    intro k e he
    simp [Store.empty] at he
  known := by
    intro h e he
    simp [Store.empty] at he
  unknown := fun _ _ => rfl
  idle := by
    intro k e he
    simp [Store.empty] at he

/-- The counts are a matter of the entries alone. -/
theorem Counts.of_lookup
    (hc : Counts layout repoId st f)
    (hl : ∀ k, st'.index.lookup k = st.index.lookup k) :
    Counts layout repoId st' f where
  addressed := by
    intro k e he
    exact hc.addressed k e (hl k ▸ he)
  known := by
    intro h e he
    exact hc.known h e (hl _ ▸ he)
  unknown := by
    intro h he
    exact hc.unknown h (hl _ ▸ he)
  idle := by
    intro k e he
    exact hc.idle k e (hl k ▸ he)

theorem Counts.toNat_refCount
    (hc : Counts layout repoId st f) (h : ChunkHash) :
    (ChunkStore.refCount st h).toNat = f h := by
  unfold ChunkStore.refCount
  cases he : st.index.lookup h.toHex with
  | none =>
      simpa using (hc.unknown h he).symm
  | some e =>
      simpa using hc.known h e he

/-- One write counts one reference more. -/
theorem counts_writeChunk
    {h : ChunkHash} {data : Bytes}
    (hc : Counts layout repoId st f) (hlt : f h + 1 < 2 ^ 32) :
    Counts layout repoId
      (stateAfter (ChunkStore.writeChunk layout repoId h data) st)
      (fun h' => f h' + [h].count h') := by
  have hother : ∀ h' : ChunkHash, h' ≠ h → [h].count h' = 0 := by
    intro h' hne
    simp [List.count_eq_zero, hne]
  have hwritten : ∀ e', (stateAfter (ChunkStore.writeChunk layout repoId h data)
      st).index.lookup h.toHex = some e' → e'.refCount.toNat = f h + 1 := by
    intro e' he'
    rw [ChunkStore.lookup_writeChunk, if_pos rfl, Option.some.injEq] at he'
    subst he'
    cases he : st.index.lookup h.toHex with
    | none =>
        simp [hc.unknown h he, ChunkStore.newEntry]
    | some e =>
        have hcount := hc.known h e he
        have hnat : (e.refCount + 1).toNat = e.refCount.toNat + 1 := by
          rw [UInt32.toNat_add]
          exact Nat.mod_eq_of_lt (by simpa [hcount] using hlt)
        simp [ChunkIndexEntry.incremented, hnat, hcount]
  constructor
  · exact ChunkStore.addressed_writeChunk hc.addressed
  · intro h' e' he'
    by_cases hh : h' = h
    · subst hh
      simpa using hwritten e' he'
    · rw [ChunkStore.lookup_writeChunk, if_neg (by simpa using hh)] at he'
      rw [hother h' hh]
      exact hc.known h' e' he'
  · intro h' he'
    rw [ChunkStore.lookup_writeChunk] at he'
    by_cases hh : h' = h
    · simp [hh] at he'
    · rw [if_neg (by simpa using hh)] at he'
      rw [hother h' hh]
      exact hc.unknown h' he'
  · intro k e' he' h0
    by_cases hk : k = h.toHex
    · subst hk
      have hpos := hwritten e' he'
      simp [h0] at hpos
    · rw [ChunkStore.lookup_writeChunk, if_neg hk] at he'
      exact hc.idle k e' he' h0

/-- Writing a list of chunks counts every occurrence. -/
theorem counts_writeChunks (chunks : List (ChunkHash × Bytes)) :
    ∀ {st : Store} {f : ChunkHash → Nat}, Counts layout repoId st f →
      (∀ h, f h + (chunks.map Prod.fst).count h < 2 ^ 32) →
      Counts layout repoId
        (stateAfter (ChunkStore.writeChunks layout repoId chunks) st)
        (fun h => f h + (chunks.map Prod.fst).count h) ∧
      (stateAfter (ChunkStore.writeChunks layout repoId chunks)
        st).index.versionChunks = st.index.versionChunks := by
  simp only [stateAfter, ChunkStore.run_writeChunks]
  induction chunks with
  | nil =>
      intro st f hc _
      exact ⟨by simpa using hc, rfl⟩
  | cons c chunks ih =>
      intro st f hc hlt
      have hsplit : ∀ h, f h + ((c :: chunks).map Prod.fst).count h =
          (f h + [c.1].count h) + (chunks.map Prod.fst).count h := by
        intro h
        rw [List.map_cons, ← List.singleton_append, List.count_append]
        omega
      have hfirst : f c.1 + 1 < 2 ^ 32 := by
        have h1 := hlt c.1
        have h2 := hsplit c.1
        simp only [List.count_singleton_self] at h2
        omega
      obtain ⟨hcounts, hversions⟩ := ih (counts_writeChunk hc hfirst)
        (fun h => by rw [← hsplit]; exact hlt h)
      simp only [List.foldl_cons, hsplit]
      exact ⟨hcounts, hversions.trans ChunkStore.versionChunks_writeChunk⟩

/-- Taking the references of a list back. -/
theorem counts_dropped
    {l : List ChunkHash} (hc : Counts layout repoId st f)
    (hl : ∀ k, st'.index.lookup k = (st.index.lookup k).map
      (.dropped ((l.map ChunkHash.toHex).count k))) :
    Counts layout repoId st' (fun h => f h - l.count h) := by
  have hcount : ∀ h : ChunkHash,
      (l.map ChunkHash.toHex).count h.toHex = l.count h :=
    fun h => List.count_map_of_injective l _ ChunkHash.toHex_injective h
  constructor
  · exact hc.addressed.of_map
      (g := fun k => .dropped ((l.map ChunkHash.toHex).count k))
      (fun k e => ChunkIndexEntry.path_dropped _ e) hl
  · intro h e' he'
    rw [hl, hcount] at he'
    obtain ⟨e, he, rfl⟩ := Option.map_eq_some_iff.mp he'
    rw [ChunkIndexEntry.toNat_refCount_dropped, hc.known h e he]
  · intro h he'
    rw [hl, Option.map_eq_none_iff] at he'
    simp [hc.unknown h he']
  · intro k e' he' h0
    rw [hl] at he'
    obtain ⟨e, he, rfl⟩ := Option.map_eq_some_iff.mp he'
    cases hn : (l.map ChunkHash.toHex).count k with
    | zero =>
        rw [hn] at h0
        exact hc.idle k e he h0
    | succ n =>
        rw [hn] at h0
        exact Or.inl (ChunkIndexEntry.status_dropped_of_refCount_eq_zero h0)

/-- Marking candidates as purged does not change a count. -/
theorem counts_purged
    (hc : Counts layout repoId st f)
    (hl : ∀ k, st'.index.lookup k = (st.index.lookup k).map fun e =>
      if e.isCandidate then e.withStatus .purged else e) :
    Counts layout repoId st' f := by
  let g : ChunkIndexEntry → ChunkIndexEntry := fun e =>
    if e.isCandidate then e.withStatus .purged else e
  have hg : ∀ e, (g e).path = e.path ∧ (g e).refCount = e.refCount ∧
      ((g e).status = e.status ∨ (g e).status = .purged) := by
    intro e
    by_cases hcand : e.isCandidate
    · simp [g, hcand, ChunkIndexEntry.withStatus]
    · simp [g, hcand]
  constructor
  · exact hc.addressed.of_map (g := fun _ => g) (fun _ e => (hg e).1) hl
  · intro h e' he'
    rw [hl] at he'
    obtain ⟨e, he, rfl⟩ := Option.map_eq_some_iff.mp he'
    rw [(hg e).2.1]
    exact hc.known h e he
  · intro h he'
    rw [hl, Option.map_eq_none_iff] at he'
    exact hc.unknown h he'
  · intro k e' he' h0
    rw [hl] at he'
    obtain ⟨e, he, rfl⟩ := Option.map_eq_some_iff.mp he'
    rcases (hg e).2.2 with hs | hs
    · rw [hs]
      exact hc.idle k e he ((hg e).2.1 ▸ h0)
    · exact Or.inr hs

end Counts

section Books

variable {layout : BadouDataLayout} {repoId : RepositoryId}
variable {repo : Repo} {ledger : Ledger VersionId ChunkHash}

/-- The repository agrees with the ledger. -/
structure Balanced
    (layout : BadouDataLayout) (repoId : RepositoryId)
    (repo : Repo) (ledger : Ledger VersionId ChunkHash) : Prop where
  counts : Counts layout repoId repo.store ledger.occurrences
  lists : ∀ v : VersionId, repo.store.index.getVersionChunks v.uuid =
    ((ledger.lookup v).getD []).map ChunkHash.toHex
  owners : ∀ v, (ledger.lookup v).isSome →
    (repo.versions.versions.lookup v).isSome

theorem balanced_new : Balanced layout repoId .new ∅ where
  counts := counts_empty
  lists := fun _ => rfl
  owners := by
    intro v hv
    simp at hv

/-- A commit registers the list of its version and no other. -/
theorem getVersionChunks_commit
    (now : DateTime) (v : VersionId) (snapshot : Uuid)
    (chunks : List (ChunkHash × Bytes)) (repo : Repo) (w : Uuid) :
    (commit layout repoId now v snapshot chunks
      repo).store.index.getVersionChunks w =
      if w = v.uuid then chunks.map fun c => c.1.toHex
      else (stateAfter (ChunkStore.writeChunks layout repoId chunks)
        repo.store).index.getVersionChunks w :=
  BadouIndex.getVersionChunks_of_insert rfl w

theorem balanced_commit
    {now : DateTime} {v : VersionId} {snapshot : Uuid}
    {chunks : List (ChunkHash × Bytes)}
    (hb : Balanced layout repoId repo ledger)
    (hp : Permitted repo (.commit now v snapshot chunks)) :
    Balanced layout repoId
      (commit layout repoId now v snapshot chunks repo)
      (ledger.insert v (chunks.map Prod.fst)) := by
  obtain ⟨hfresh, hlt⟩ := hp
  have hnew : ledger.lookup v = none := by
    by_contra hsome
    have hin := hb.owners v (Option.isSome_iff_ne_none.mpr hsome)
    simp [hfresh] at hin
  have hlt' : ∀ h, ledger.occurrences h + (chunks.map Prod.fst).count h
      < 2 ^ 32 := by
    intro h
    rw [← hb.counts.toNat_refCount h]
    exact hlt h
  obtain ⟨hcounts, hversions⟩ := counts_writeChunks chunks hb.counts hlt'
  constructor
  · have hsum : Ledger.occurrences (ledger.insert v (chunks.map Prod.fst)) =
        fun h => ledger.occurrences h + (chunks.map Prod.fst).count h := by
      funext h
      rw [Ledger.occurrences_insert hnew, Nat.add_comm]
    rw [hsum]
    exact hcounts.of_lookup fun k => rfl
  · intro w
    rw [HashMap.lookup_insert_of]
    rw [getVersionChunks_commit]
    by_cases hw : w = v
    · simp [hw]
    · have hne : w.uuid ≠ v.uuid := by
        intro heq
        cases w
        cases v
        exact hw (congrArg VersionId.mk heq)
      rw [if_neg hne, if_neg hw, ← hb.lists w]
      simp only [BadouIndex.getVersionChunks, hversions]
  · intro w hw
    rw [HashMap.lookup_insert_of] at hw
    refine (VersionOps.isSome_lookup_createVersion now v w snapshot repoId).mpr ?_
    by_cases hwv : w = v
    · exact Or.inl hwv
    · rw [if_neg hwv] at hw
      exact Or.inr (hb.owners w hw)

/-- The books are a matter of the store and of which versions there are. -/
theorem Balanced.of_store
    {repo' : Repo} (hb : Balanced layout repoId repo ledger)
    (hstore : repo'.store = repo.store)
    (howners : ∀ v, (repo.versions.versions.lookup v).isSome →
      (repo'.versions.versions.lookup v).isSome) :
    Balanced layout repoId repo' ledger where
  counts := hstore ▸ hb.counts
  lists := hstore ▸ hb.lists
  owners := fun v hv => howners v (hb.owners v hv)

/-- What a version refers to has a reference. -/
theorem Balanced.refCount_ne_zero
    (hb : Balanced layout repoId repo ledger)
    {v : VersionId} {l : List ChunkHash} (hv : ledger.lookup v = some l)
    {h : ChunkHash} (hh : h ∈ l) {e : ChunkIndexEntry}
    (he : repo.store.index.lookup h.toHex = some e) :
    e.refCount ≠ 0 := by
  intro h0
  have hle := Ledger.count_le_occurrences hv h
  have hpos := List.count_pos_iff.mpr hh
  have hcount := hb.counts.known h e he
  simp only [h0, UInt32.toNat_zero] at hcount
  omega

/-- A listed chunk is in the list that the ledger has for the version. -/
theorem Balanced.exists_of_mem
    (hb : Balanced layout repoId repo ledger) {v : VersionId} {k : String}
    (hk : k ∈ repo.store.index.getVersionChunks v.uuid) :
    ∃ l h, ledger.lookup v = some l ∧ h ∈ l ∧ k = h.toHex := by
  rw [hb.lists, List.mem_map] at hk
  obtain ⟨h, hh, rfl⟩ := hk
  cases hv : ledger.lookup v with
  | none =>
      simp [hv] at hh
  | some l =>
      exact ⟨l, h, rfl, by simpa [hv] using hh, rfl⟩

/-- Every chunk a listed version refers to is in the index. -/
theorem Balanced.isSome_lookup
    (hb : Balanced layout repoId repo ledger) {v : VersionId} {k : String}
    (hk : k ∈ repo.store.index.getVersionChunks v.uuid) :
    (repo.store.index.lookup k).isSome := by
  obtain ⟨l, h, hv, hh, rfl⟩ := hb.exists_of_mem hk
  have hle := Ledger.count_le_occurrences hv h
  have hpos := List.count_pos_iff.mpr hh
  by_contra hnone
  have hzero := hb.counts.unknown h (by simpa using hnone)
  omega

theorem balanced_deleteVersion
    {now : DateTime} {v : VersionId}
    (hb : Balanced layout repoId repo ledger)
    (hp : Permitted repo (.deleteVersion now v)) :
    Balanced layout repoId (deleteVersion now v repo) (ledger.erase v) := by
  obtain ⟨version, hversion, hmutable⟩ := hp
  obtain ⟨result, -, -, hlists, hlookup⟩ := exists_of_returns
    (VersionDeleter.returns_deleteVersion hversion hmutable
      fun k hk => hb.isSome_lookup hk)
  constructor
  · have hdropped : Counts layout repoId (deleteVersion now v repo).store
        (fun h => ledger.occurrences h -
          ((ledger.lookup v).getD []).count h) := by
      refine counts_dropped hb.counts ?_
      rw [← hb.lists v]
      exact hlookup
    have hsum : (fun h => ledger.occurrences h -
        ((ledger.lookup v).getD []).count h) =
          Ledger.occurrences (ledger.erase v) := by
      funext h
      cases hv : ledger.lookup v with
      | none =>
          rw [Option.getD_none, List.count_nil, Nat.sub_zero, HashMap.erase_of_lookup hv]
      | some l =>
          have hsplit := Ledger.occurrences_erase hv h
          simp only [Option.getD_some]
          omega
    rw [← hsum]
    exact hdropped
  · intro w
    rw [HashMap.lookup_erase_of]
    simp only [deleteVersion, Store.index_onIndex]
    rw [BadouIndex.getVersionChunks_of_insert hlists]
    by_cases hw : w = v
    · simp [hw]
    · have hne : w.uuid ≠ v.uuid := by
        intro heq
        cases w
        cases v
        exact hw (congrArg VersionId.mk heq)
      rw [if_neg hne, if_neg hw, hb.lists w]
  · intro w hw
    rw [HashMap.lookup_erase_of] at hw
    by_cases hwv : w = v
    · simp [hwv] at hw
    · rw [if_neg hwv] at hw
      exact hb.owners w hw

theorem Counts.exists_toHex
    {st : Store} {f : ChunkHash → Nat} (hc : Counts layout repoId st f) :
    ∀ k e, st.index.lookup k = some e → ∃ h : ChunkHash, k = h.toHex := by
  intro k e he
  obtain ⟨h, hk, -⟩ := hc.addressed k e he
  exact ⟨h, hk⟩

theorem balanced_executeGc
    (hb : Balanced layout repoId repo ledger)
    (order : IterOrder (String × ChunkIndexEntry)) :
    Balanced layout repoId (executeGc order repo) ledger := by
  obtain ⟨report, -, -, -, hversions, hlookup, -⟩ := exists_of_returns
    (GcExecutor.returns_executeGc order hb.counts.exists_toHex)
  constructor
  · exact counts_purged hb.counts hlookup
  · intro v
    rw [← hb.lists v]
    simp only [BadouIndex.getVersionChunks, executeGc, hversions]
  · exact hb.owners

/-- One permitted operation keeps repository and ledger in agreement. -/
theorem balanced_step
    {op : Op} (hb : Balanced layout repoId repo ledger)
    (hp : Permitted repo op) :
    Balanced layout repoId (step layout repoId repo op) (op.post ledger) := by
  cases op with
  | commit now v snapshot chunks =>
      exact balanced_commit hb hp
  | deleteVersion now v =>
      exact balanced_deleteVersion hb hp
  | executeGc order =>
      exact balanced_executeGc hb order

/-- So does every permitted run. -/
theorem balanced_run (ops : List Op) :
    ∀ {repo : Repo} {ledger : Ledger VersionId ChunkHash},
      Balanced layout repoId repo ledger →
      PermittedRun layout repoId repo ops →
      Balanced layout repoId (run layout repoId repo ops)
        (ops.foldl Op.post ledger) := by
  induction ops with
  | nil =>
      intro repo ledger hb _
      exact hb
  | cons op ops ih =>
      intro repo ledger hb hp
      exact ih (balanced_step hb hp.1) hp.2

end Books

section Accounting

variable {layout : BadouDataLayout} {repoId : RepositoryId}

/-- The stored size of the chunk with the given text. -/
def storedSize (st : Store) (k : String) : Nat :=
  ((st.index.lookup k).map fun e => e.storedSize).getD 0

/-- A collection purges exactly the pending entries without references, and
none that a listed version refers to; it reports their stored sizes; and a
second one right after it finds nothing to do. -/
def CollectsGarbage
    (st : Store) (ledger : Ledger VersionId ChunkHash)
    (order : IterOrder (String × ChunkIndexEntry)) : Prop :=
  Returns (GcExecutor.executeGc order) st fun report st' =>
    report.purgedChunks.Nodup ∧
    (∀ k, k ∈ report.purgedChunks ↔ ∃ e, st.index.lookup k = some e ∧
      e.status = .gcPending ∧ e.refCount = 0) ∧
    (∀ k, st'.index.lookup k =
      if k ∈ report.purgedChunks
      then (st.index.lookup k).map (.withStatus .purged)
      else st.index.lookup k) ∧
    (∀ v l, ledger.lookup v = some l → ∀ h ∈ l,
      h.toHex ∉ report.purgedChunks ∧
      ∀ e, st.index.lookup h.toHex = some e →
        st'.files.lookup e.path = st.files.lookup e.path) ∧
    report.freedBytes = (report.purgedChunks.map (storedSize st)).sum ∧
    ∀ order', Returns (GcExecutor.executeGc order') st' fun report' st'' =>
      report'.purgedChunks = [] ∧ st'' = st'

/-- Deleting a version a second time changes nothing. -/
def DeletesOnce
    (repo : Repo) (now now' : DateTime) (v : VersionId) : Prop :=
  Returns (VersionDeleter.deleteVersion repo.versions now v) repo.store.index
    fun _ index' =>
      Returns (VersionDeleter.deleteVersion repo.versions now' v) index'
        fun result'' index'' => result''.removedChunks = [] ∧ index'' = index'

theorem collectsGarbage_of_balanced
    {repo : Repo} {ledger : Ledger VersionId ChunkHash}
    (hb : Balanced layout repoId repo ledger)
    (order : IterOrder (String × ChunkIndexEntry)) :
    CollectsGarbage repo.store ledger order := by
  have hmem : ∀ k, k ∈ (repo.store.index.gcCandidates order).map Prod.fst ↔
      ∃ e, repo.store.index.lookup k = some e ∧ e.status = .gcPending ∧
        e.refCount = 0 := by
    intro k
    simp only [BadouIndex.mem_map_fst_gcCandidates,
      ChunkIndexEntry.isCandidate_iff]
  refine returns_mono
    (GcExecutor.returns_executeGc order hb.counts.exists_toHex) ?_
  rintro report st' ⟨hpurged, hfreed, hversions, hlookup, hfiles⟩
  rw [hpurged]
  refine ⟨BadouIndex.nodup_gcCandidates _ order, hmem, ?_, ?_, ?_, ?_⟩
  · intro k
    rw [hlookup, GcExecutor.lookup_purged]
  · intro v l hv h hh
    refine ⟨?_, ?_⟩
    · rw [hmem]
      rintro ⟨e, he, -, h0⟩
      exact hb.refCount_ne_zero hv hh he h0
    · intro e he
      rw [hfiles, if_neg]
      intro hpath
      obtain ⟨⟨k, c⟩, hin, hceq⟩ := List.mem_map.mp hpath
      obtain ⟨hc, hcand⟩ := (BadouIndex.mem_gcCandidates _ _ _).mp hin
      -- An entry with the same file is the entry of the same chunk.
      obtain rfl := hb.counts.addressed.eq_of_path hc he hceq
      obtain rfl : c = e := Option.some.inj (hc.symm.trans he)
      exact hb.refCount_ne_zero hv hh he
        (ChunkIndexEntry.isCandidate_iff.mp hcand).2
  · rw [hfreed, List.map_map]
    refine congrArg List.sum (List.map_congr_left ?_)
    rintro ⟨k, c⟩ hin
    obtain ⟨hc, -⟩ := (BadouIndex.mem_gcCandidates _ _ _).mp hin
    simp [storedSize, hc]
  · intro order'
    have hnone : st'.index.gcCandidates order' = [] := by
      rw [List.eq_nil_iff_forall_not_mem]
      rintro ⟨k, e'⟩ hin
      obtain ⟨he', hcand⟩ := (BadouIndex.mem_gcCandidates _ _ _).mp hin
      rw [hlookup] at he'
      obtain ⟨e, he, rfl⟩ := Option.map_eq_some_iff.mp he'
      by_cases hc : e.isCandidate = true
      · simp [hc, ChunkIndexEntry.isCandidate_iff,
          ChunkIndexEntry.withStatus] at hcand
      · simp [hc] at hcand
    unfold GcExecutor.executeGc
    refine returns_bind_of_run (EStateM.run_get _) ?_
    rw [hnone]
    exact returns_pure ⟨rfl, rfl⟩

theorem deletesOnce_of_balanced
    {repo : Repo} {ledger : Ledger VersionId ChunkHash}
    {now now' : DateTime} {v : VersionId} {version : Version}
    (hb : Balanced layout repoId repo ledger)
    (hv : repo.versions.versions.lookup v = some version)
    (hnow : VersionDeleter.isImmutable now version = false)
    (hnow' : VersionDeleter.isImmutable now' version = false) :
    DeletesOnce repo now now' v := by
  refine returns_mono (VersionDeleter.returns_deleteVersion hv hnow
    fun k hk => hb.isSome_lookup hk) ?_
  rintro result index' ⟨-, hlists, -⟩
  have hnil : index'.getVersionChunks v.uuid = [] := by
    simp [BadouIndex.getVersionChunks_of_insert hlists]
  refine returns_mono
    (VersionDeleter.returns_deleteVersion_of_nil hv hnow' hnil) ?_
  rintro result'' index'' ⟨hremoved, rfl⟩
  refine ⟨hremoved, ?_⟩
  obtain ⟨chunkIndex, versionChunks⟩ := index'
  simp only at hlists
  subst hlists
  simp [BadouIndex.registerVersionChunks, AList.insert_insert]

/-- The books of every permitted run balance. -/
theorem run_accounting
    (layout : BadouDataLayout) (repoId : RepositoryId) (ops : List Op)
    (hops : PermittedRun layout repoId .new ops) :
    (∀ h, (ChunkStore.refCount (run layout repoId .new ops).store h).toNat =
      (books ops).occurrences h) ∧
    (∀ k e, (run layout repoId .new ops).store.index.lookup k = some e →
      e.refCount = 0 → e.status = .gcPending ∨ e.status = .purged) ∧
    (∀ order, CollectsGarbage (run layout repoId .new ops).store
      (books ops) order) ∧
    ∀ now now' v,
      Permitted (run layout repoId .new ops) (.deleteVersion now v) →
      Permitted (run layout repoId .new ops) (.deleteVersion now' v) →
      DeletesOnce (run layout repoId .new ops) now now' v := by
  have hb : Balanced layout repoId (run layout repoId .new ops) (books ops) :=
    balanced_run ops balanced_new hops
  refine ⟨hb.counts.toNat_refCount, hb.counts.idle,
    collectsGarbage_of_balanced hb, ?_⟩
  rintro now now' v ⟨version, hv, hnow⟩ ⟨version', hv', hnow'⟩
  cases hv.symm.trans hv'
  exact deletesOnce_of_balanced hb hv hnow hnow'

/-- One version with an empty chunk, deleted twice around a collection. -/
def exampleRun : List Op :=
  [.commit 0 ⟨1⟩ 2 [(.ofEmpty, [])], .deleteVersion 0 ⟨1⟩,
    .executeGc .asStored, .deleteVersion 0 ⟨1⟩]

theorem run_accounting_exampleRun :
    PermittedRun ⟨"/data"⟩ ⟨7⟩ .new exampleRun ∧
      ∀ h, (ChunkStore.refCount
        (run ⟨"/data"⟩ ⟨7⟩ .new exampleRun).store h).toNat =
          (books exampleRun).occurrences h := by
  have hops : PermittedRun ⟨"/data"⟩ ⟨7⟩ .new exampleRun := by
    refine ⟨⟨rfl, ?_⟩, ⟨_, rfl, rfl⟩, trivial, ⟨_, rfl, rfl⟩, trivial⟩
    intro h
    have hcount : ([ChunkHash.ofEmpty] : List ChunkHash).count h ≤ 1 :=
      List.count_le_length
    have hzero : ChunkStore.refCount Repo.new.store h = 0 := rfl
    simp only [hzero, UInt32.toNat_zero, List.map_cons, List.map_nil]
    omega
  exact ⟨hops, (run_accounting ⟨"/data"⟩ ⟨7⟩ exampleRun hops).1⟩

end Accounting

end GcAccounting
end Badou
end HyperBackup
