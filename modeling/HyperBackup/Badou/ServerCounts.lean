import HyperBackup.Badou.Server

/-!
# Reference counts of the running server

The reference count of a chunk should be the number of references by versions
that were committed and not deleted.  The server adds a reference on every
upload and on every chunk a commit writes, successful or not.  No request
registers the chunk list of a version, so deleting a version takes nothing
away.

Books are kept next to the server: which chunks were uploaded, which were
written by commits that failed, and which chunks the live and the deleted
versions list.  The count of a chunk is the sum of all four, as a 32-bit
word, in every reachable state.
-/

namespace HyperBackup
namespace Badou
namespace ServerCounts

open Lib Lib.Program

/-- What has happened to one repository. -/
structure Books where
  uploads : List ChunkHash
  failed : List ChunkHash
  deleted : List ChunkHash
  live : List (VersionId × List ChunkHash)

namespace Books

def new : Books :=
  { uploads := [], failed := [], deleted := [], live := [] }

/-- The chunks listed by live versions. -/
def listed (b : Books) : List ChunkHash :=
  b.live.flatMap Prod.snd

/-- The number of references to a chunk by live versions. -/
def references (b : Books) (h : ChunkHash) : Nat :=
  b.listed.count h

/-- The references that no live version has. -/
def surplus (b : Books) (h : ChunkHash) : Nat :=
  b.uploads.count h + b.failed.count h + b.deleted.count h

/-- Every uploaded chunk has been listed by a commit that succeeded. -/
def TakenUp (b : Books) : Prop :=
  ∀ h ∈ b.uploads, h ∈ b.listed ∨ h ∈ b.deleted

/-- The last version that listed the chunk has been deleted. -/
def LastDeleted (b : Books) (h : ChunkHash) : Prop :=
  h ∈ b.deleted ∧ h ∉ b.listed

def upload (h : ChunkHash) (b : Books) : Books :=
  { b with uploads := b.uploads ++ [h] }

/-- A commit that wrote the given chunks. -/
def commit (hashes : List ChunkHash) (result : Except Status CommitResult)
    (verifiable : Bool) (b : Books) : Books :=
  { b with
    live :=
      match result with
      | .ok (.success v _) => b.live ++ [(v, hashes)]
      | _ => b.live
    failed := if verifiable then b.failed else b.failed ++ hashes }

def delete (v : VersionId) (b : Books) : Books :=
  { b with
    live := b.live.filter fun version => version.1 ≠ v
    deleted := b.deleted ++
      (b.live.filter fun version => version.1 = v).flatMap Prod.snd }

end Books

/-- The two indexes of an opened repository. -/
inductive IndexOf
  | chunkStore
  | openRepo
deriving DecidableEq

/-- What clients and operators do; deletions concern one repository. -/
inductive Op
  | chunkPut (request : Request ChunkPutRequest)
  | snapshotCommit (draws : RequestDraws)
      (request : Request SnapshotCommitRequest)
  | deleteVersion (which : IndexOf) (now : DateTime) (v : VersionId)

/-- The server and the books of one repository. -/
structure World where
  server : ServerState
  books : Books

section Runs

variable (ext : Externals) (layout : BadouDataLayout) (repoId : RepositoryId)

/-- Run a deletion on one of the indexes of the repository. -/
def onIndex {α : Type} (which : IndexOf)
    (x : EStateM DeleteError BadouIndex α) :
    EStateM DeleteError ServerState α :=
  match which with
  | .chunkStore =>
      zoom (fun s => (Server.repoState s repoId).store.index)
        (fun index s =>
          let repo := Server.repoState s repoId
          Server.setRepo repoId
            { repo with store := { repo.store with index := index } } s) id x
  | .openRepo =>
      zoom (fun s => (Server.repoState s repoId).index)
        (fun index s =>
          let repo := Server.repoState s repoId
          Server.setRepo repoId { repo with index := index } s) id x

def deleteVersion (which : IndexOf) (now : DateTime) (v : VersionId) :
    EStateM DeleteError ServerState DeleteResult := do
  let s ← get
  onIndex repoId which (VersionDeleter.deleteVersion s.versionOps now v)

def stepServer (s : ServerState) : Op → ServerState
  | .chunkPut request => stateAfter (Server.chunkPut ext layout request) s
  | .snapshotCommit draws request =>
      stateAfter (Server.snapshotCommit ext layout draws request) s
  | .deleteVersion which now v => stateAfter (deleteVersion repoId which now v) s

/-- The books after an operation on the given server. -/
def stepBooks (s : ServerState) (b : Books) : Op → Books
  | .chunkPut request =>
      match Server.putTarget ext s request with
      | none => b
      | some (r, h, _) => if r = repoId then b.upload h else b
  | .snapshotCommit draws request =>
      match Server.commitTarget ext s draws request with
      | none => b
      | some args =>
          if args.repoId = repoId then
            let hashes := args.chunkHashes.map Convert.parseHashOrZero
            b.commit hashes
              (outcome (Server.runCommit ext layout draws args
                (Server.commitChunks ext s args)) s)
              (hashes.all (Server.verifiable ext (Server.repoState s repoId).store))
          else b
  | .deleteVersion which now v =>
      match outcome (deleteVersion repoId which now v) s with
      | .error _ => b
      | .ok _ => b.delete v

def step (w : World) (op : Op) : World :=
  { server := stepServer ext layout repoId w.server op
    books := stepBooks ext layout repoId w.server w.books op }

/-- The world after a run on a server whose repositories, this one and others,
are new. -/
def run (repoIds : List RepositoryId) (ops : List Op) : World :=
  ops.foldl (step ext layout repoId)
    { server := Server.new (repoId :: repoIds), books := .new }

/-- The store of the repository. -/
def World.store (w : World) : Store :=
  (Server.repoState w.server repoId).store

/-- A collection would take the chunk. -/
def IsCandidate (st : Store) (h : ChunkHash) : Prop :=
  ∃ e, st.index.lookup h.toHex = some e ∧ e.isCandidate = true

/-- Once all uploads are taken up, the index counts the references of live
versions, and the chunks to collect are those whose last version is gone. -/
def CountsLive (st : Store) (b : Books) : Prop :=
  b.TakenUp → ∀ h, (ChunkStore.refCount st h).toNat = b.references h ∧
    (IsCandidate st h ↔ b.LastDeleted h)

/-- The surplus of every chunk vanishes in a 32-bit word, and no chunk has
lost its last version. -/
def Balanced (b : Books) : Prop :=
  b.TakenUp → ∀ h, b.references h < 2 ^ 32 ∧ 2 ^ 32 ∣ b.surplus h ∧
    ¬ b.LastDeleted h

end Runs

namespace Books

variable {b : Books} {h : ChunkHash}

/-- All references a chunk has ever got. -/
def total (b : Books) (h : ChunkHash) : Nat :=
  b.references h + b.surplus h

theorem total_upload (h' : ChunkHash) :
    (b.upload h').total h = b.total h + if h = h' then 1 else 0 := by
  by_cases hh : h = h'
  · simp [total, surplus, references, listed, upload, hh]
    omega
  · have hne : h' ≠ h := fun heq => hh heq.symm
    simp [total, surplus, references, listed, upload, hh, hne]

/-- A commit adds its list to the live versions or to the failed commits. -/
theorem total_commit
    {hashes : List ChunkHash} {result : Except Status CommitResult}
    {verifiable : Bool}
    (hresult : (∃ v id, result = .ok (.success v id)) ↔ verifiable = true) :
    (b.commit hashes result verifiable).total h =
      b.total h + hashes.count h := by
  cases verifiable with
  | true =>
      obtain ⟨v, id, rfl⟩ := hresult.mpr rfl
      simp [total, surplus, references, listed, commit]
      omega
  | false =>
      have hlive : (b.commit hashes result false).live = b.live := by
        cases result with
        | error e =>
            rfl
        | ok result =>
            cases result with
            | failure v reason =>
                rfl
            | success v id =>
                exact absurd (hresult.mp ⟨v, id, rfl⟩) (by simp)
      have hfailed : (b.commit hashes result false).failed =
          b.failed ++ hashes :=
        rfl
      have huploads : (b.commit hashes result false).uploads = b.uploads :=
        rfl
      have hdeleted : (b.commit hashes result false).deleted = b.deleted :=
        rfl
      simp only [total, surplus, references, listed, hlive, hfailed, huploads,
        hdeleted, List.count_append]
      omega

/-- Splitting versions in two splits their references. -/
theorem count_flatMap_filter
    (live : List (VersionId × List ChunkHash)) (v : VersionId) (h : ChunkHash) :
    ((live.filter fun version => version.1 ≠ v).flatMap Prod.snd).count h +
      ((live.filter fun version => version.1 = v).flatMap Prod.snd).count h =
      (live.flatMap Prod.snd).count h := by
  induction live with
  | nil =>
      rfl
  | cons version live ih =>
      by_cases hv : version.1 = v
      · simp only [List.filter_cons, hv, ne_eq, not_true_eq_false,
          decide_false, decide_true, Bool.false_eq_true, if_false, if_true,
          List.flatMap_cons, List.count_append] at ih ⊢
        omega
      · simp only [List.filter_cons, hv, ne_eq, not_false_eq_true,
          decide_false, decide_true, Bool.false_eq_true, if_false, if_true,
          List.flatMap_cons, List.count_append] at ih ⊢
        omega

/-- Deleting a version moves its references from one side to the other. -/
theorem total_delete (v : VersionId) :
    (b.delete v).total h = b.total h := by
  have hsplit := count_flatMap_filter b.live v h
  simp only [total, surplus, references, listed, delete, List.count_append]
  omega

end Books

section Invariant

variable {ext : Externals} {layout : BadouDataLayout} {repoId : RepositoryId}
variable {w : World}

/-- The counts are the books, and no index has the chunk list of a version. -/
structure Inv
    (layout : BadouDataLayout) (repoId : RepositoryId) (w : World) : Prop where
  tidy : (w.store repoId).Tidy layout repoId
  counts : ∀ h, ChunkStore.refCount (w.store repoId) h =
    UInt32.ofNat (w.books.total h)
  unlisted : ∀ v, (w.store repoId).index.getVersionChunks v = []
  unlisted' : ∀ v, (Server.repoState w.server repoId).index.getVersionChunks v =
    []

theorem inv_new (repoIds : List RepositoryId) :
    Inv layout repoId { server := Server.new repoIds, books := .new } where
  tidy := by
    rw [World.store, Server.repoState_new]
    exact Store.tidy_empty
  counts := by
    intro h
    simp [World.store, OpenRepo.empty]
    rfl
  unlisted := by
    intro v
    simp [World.store]
    rfl
  unlisted' := by
    intro v
    simp
    rfl

/-- Writing chunks to the repository keeps the invariant if the books gain
the same references. -/
theorem inv_writeChunks
    {s : ServerState} {b : Books} (chunks : List (ChunkHash × Bytes))
    (hinv : Inv layout repoId w)
    (hstore : (Server.repoState s repoId).store =
      stateAfter (ChunkStore.writeChunks layout repoId chunks) (w.store repoId))
    (hindex : (Server.repoState s repoId).index =
      (Server.repoState w.server repoId).index)
    (hbooks : ∀ h, b.total h =
      w.books.total h + (chunks.map Prod.fst).count h) :
    Inv layout repoId { server := s, books := b } where
  tidy := by
    rw [World.store, hstore]
    exact ChunkStore.tidy_writeChunks chunks hinv.tidy
  counts := by
    intro h
    rw [World.store, hstore, ChunkStore.refCount_writeChunks, hinv.counts,
      hbooks, UInt32.ofNat_add]
  unlisted := by
    intro v
    rw [World.store, hstore, BadouIndex.getVersionChunks,
      ChunkStore.versionChunks_writeChunks]
    exact hinv.unlisted v
  unlisted' := by
    intro v
    rw [hindex]
    exact hinv.unlisted' v

theorem inv_chunkPut
    (hinv : Inv layout repoId w) (request : Request ChunkPutRequest) :
    Inv layout repoId (step ext layout repoId w (.chunkPut request)) := by
  unfold step stepServer stepBooks
  simp only
  rw [Server.stateAfter_chunkPut]
  cases htarget : Server.putTarget ext w.server request with
  | none =>
      exact hinv
  | some target =>
      obtain ⟨r, h, data⟩ := target
      simp only
      by_cases hr : r = repoId
      · subst hr
        refine inv_writeChunks [(h, data)] hinv ?_ ?_ ?_
        · rw [Server.withChunk, Server.repoState_setRepo, if_pos rfl,
            ChunkStore.stateAfter_writeChunks]
          rfl
        · rw [Server.withChunk, Server.repoState_setRepo, if_pos rfl]
        · intro h'
          rw [if_pos rfl, Books.total_upload]
          by_cases hh : h' = h
          · simp [hh]
          · have hne : h ≠ h' := fun heq => hh heq.symm
            simp [hh, hne]
      · have hr' : repoId ≠ r := fun heq => hr heq.symm
        refine inv_writeChunks [] hinv ?_ ?_ ?_
        · rw [Server.withChunk, Server.repoState_setRepo, if_neg hr']
          rfl
        · rw [Server.withChunk, Server.repoState_setRepo, if_neg hr']
        · intro h'
          rw [if_neg hr]
          rfl

theorem inv_snapshotCommit
    (hinv : Inv layout repoId w) (draws : RequestDraws)
    (request : Request SnapshotCommitRequest) :
    Inv layout repoId (step ext layout repoId w (.snapshotCommit draws request)) := by
  have hstore :=
    Server.store_snapshotCommit ext layout w.server repoId draws request
  have hindex :=
    Server.index_snapshotCommit ext layout w.server repoId draws request
  unfold step stepServer stepBooks
  simp only
  cases htarget : Server.commitTarget ext w.server draws request with
  | none =>
      rw [htarget] at hstore
      exact inv_writeChunks [] hinv hstore hindex fun _ => rfl
  | some args =>
      rw [htarget] at hstore
      simp only at hstore ⊢
      by_cases hr : args.repoId = repoId
      · subst hr
        rw [if_pos rfl] at hstore ⊢
        have hadmits := Server.admits_of_commitTarget htarget
        refine inv_writeChunks _ hinv hstore hindex ?_
        intro h
        rw [Books.total_commit
            (by simpa using Server.outcome_runCommit hinv.tidy hadmits),
          Server.commitChunks, Server.loadChunks_eq, List.map_map]
        simp [Function.comp_def]
      · have hr' : repoId ≠ args.repoId := fun heq => hr heq.symm
        rw [if_neg hr'] at hstore
        rw [if_neg hr]
        exact inv_writeChunks [] hinv hstore hindex fun _ => rfl

/-- Without the chunk list of the version a deletion changes no entry, and
afterwards there still is no list. -/
theorem deleteVersion_of_unlisted
    {index : BadouIndex} (hnil : ∀ v, index.getVersionChunks v = [])
    (ops : VersionOps) (now : DateTime) (v : VersionId) :
    (∀ k, (stateAfter (VersionDeleter.deleteVersion ops now v) index).lookup k =
        index.lookup k) ∧
      ∀ v', (stateAfter (VersionDeleter.deleteVersion ops now v)
        index).getVersionChunks v' = [] := by
  obtain hsame | hregister :=
    VersionDeleter.stateAfter_deleteVersion_of_nil ops now (hnil v.uuid)
  · rw [hsame]
    exact ⟨fun _ => rfl, hnil⟩
  · rw [hregister]
    refine ⟨fun _ => rfl, fun v' => ?_⟩
    rw [BadouIndex.getVersionChunks_of_insert rfl, hnil]
    simp

/-- The invariant only looks at the entries and the chunk lists. -/
theorem inv_of_lookup
    {s : ServerState} {b : Books} (hinv : Inv layout repoId w)
    (hlookup : ∀ k, (Server.repoState s repoId).store.index.lookup k =
      (w.store repoId).index.lookup k)
    (hnil : ∀ v, (Server.repoState s repoId).store.index.getVersionChunks v = [])
    (hnil' : ∀ v, (Server.repoState s repoId).index.getVersionChunks v = [])
    (hbooks : ∀ h, b.total h = w.books.total h) :
    Inv layout repoId { server := s, books := b } where
  tidy :=
    { addressed := fun k e he => hinv.tidy.addressed k e (hlookup k ▸ he)
      active := fun k e he => hinv.tidy.active k e (hlookup k ▸ he) }
  counts := by
    intro h
    rw [hbooks, ← hinv.counts, ChunkStore.refCount, ChunkStore.refCount,
      World.store, hlookup]
  unlisted := hnil
  unlisted' := hnil'

theorem inv_deleteVersion
    (hinv : Inv layout repoId w)
    (which : IndexOf) (now : DateTime) (v : VersionId) :
    Inv layout repoId (step ext layout repoId w (.deleteVersion which now v)) := by
  have hbooks : ∀ h, (stepBooks ext layout repoId w.server w.books
      (.deleteVersion which now v)).total h = w.books.total h := by
    intro h
    unfold stepBooks
    simp only
    split
    · rfl
    · exact Books.total_delete v
  have hstate : stateAfter (deleteVersion repoId which now v) w.server =
      stateAfter (onIndex repoId which
        (VersionDeleter.deleteVersion w.server.versionOps now v)) w.server :=
    stateAfter_bind_of_run (EStateM.run_get _)
  unfold step stepServer
  simp only
  rw [hstate]
  cases which with
  | chunkStore =>
      obtain ⟨hlookup, hnil⟩ := deleteVersion_of_unlisted hinv.unlisted
        w.server.versionOps now v
      rw [onIndex, stateAfter_zoom]
      refine inv_of_lookup hinv ?_ ?_ ?_ hbooks
      · simpa [World.store] using hlookup
      · simpa [World.store] using hnil
      · simpa using hinv.unlisted'
  | openRepo =>
      obtain ⟨-, hnil⟩ := deleteVersion_of_unlisted hinv.unlisted'
        w.server.versionOps now v
      rw [onIndex, stateAfter_zoom]
      refine inv_of_lookup hinv ?_ ?_ ?_ hbooks
      · simp [World.store]
      · simpa [World.store] using hinv.unlisted
      · simpa using hnil

/-- Every reachable world keeps its books. -/
theorem inv_run (repoIds : List RepositoryId) (ops : List Op) :
    Inv layout repoId (run ext layout repoId repoIds ops) := by
  refine List.foldlRecOn ops (step ext layout repoId)
    (motive := Inv layout repoId) (inv_new _) ?_
  intro w hinv op _
  cases op with
  | chunkPut request =>
      exact inv_chunkPut hinv request
  | snapshotCommit draws request =>
      exact inv_snapshotCommit hinv draws request
  | deleteVersion which now v =>
      exact inv_deleteVersion hinv which now v

end Invariant

section Claim

/-- A sum agrees with its first part as a 32-bit word if the rest vanishes. -/
theorem mod_eq_left_iff (a b : Nat) :
    (a + b) % 2 ^ 32 = a ↔ a < 2 ^ 32 ∧ 2 ^ 32 ∣ b := by
  omega

/-- In every run the index counts the live versions exactly where uploads,
failed commits and deletions leave no trace in the count. -/
theorem run_countsLive_iff
    (ext : Externals) (layout : BadouDataLayout) (repoId : RepositoryId)
    (repoIds : List RepositoryId) (ops : List Op) :
    CountsLive ((run ext layout repoId repoIds ops).store repoId)
        (run ext layout repoId repoIds ops).books ↔
      Balanced (run ext layout repoId repoIds ops).books := by
  have hinv : Inv layout repoId (run ext layout repoId repoIds ops) :=
    inv_run repoIds ops
  refine imp_congr_right fun _ => forall_congr' fun h => ?_
  have hcandidate : ¬ IsCandidate
      ((run ext layout repoId repoIds ops).store repoId) h := by
    rintro ⟨e, he, hcand⟩
    have hactive := hinv.tidy.active _ e he
    rw [(ChunkIndexEntry.isCandidate_iff.mp hcand).1] at hactive
    cases hactive
  rw [hinv.counts, UInt32.toNat_ofNat', Books.total, mod_eq_left_iff, and_assoc]
  simp [hcandidate]

/-- Uploading the empty chunk to the repository 1 and committing it. -/
def uploadAndCommit : List Op :=
  [.chunkPut Server.putEmpty,
    .snapshotCommit (Server.drawsFrom 2)
      (Server.commitOf [ChunkHash.ofEmpty.toHex])]

/-- One upload and one version stand in the books. -/
theorem books_uploadAndCommit (json : Json) :
    ∃ v, (run (Server.externalsWith json) ⟨"/data"⟩ ⟨1#128⟩ []
      uploadAndCommit).books =
        { uploads := [.ofEmpty], failed := [], deleted := []
          live := [(v, [.ofEmpty])] } := by
  have hput : Server.putTarget (Server.externalsWith json) (Server.new [⟨1#128⟩])
      Server.putEmpty = some (⟨1#128⟩, .ofEmpty, []) := by
    refine Server.putTarget_eq_some_iff.mpr ⟨rfl, ⟨?_, ?_⟩, rfl, rfl⟩
    · exact { chunkHash := ChunkHash.ofEmpty.toHex, data := [], size := 0 }
    · exact Server.parsePut_eq_ok_iff.mpr
        ⟨rfl, rfl, Server.parseHash_toHex _, rfl⟩
  -- The server between the two requests.
  let s := Server.withChunk ⟨"/data"⟩ ⟨1#128⟩ .ofEmpty [] (Server.new [⟨1#128⟩])
  have hinv : Inv ⟨"/data"⟩ ⟨1#128⟩ (step (Server.externalsWith json) ⟨"/data"⟩ ⟨1#128⟩
      { server := Server.new [⟨1#128⟩], books := .new }
      (.chunkPut Server.putEmpty)) :=
    inv_chunkPut (inv_new _) _
  have hfirst : step (Server.externalsWith json) ⟨"/data"⟩ ⟨1#128⟩
      { server := Server.new [⟨1#128⟩], books := .new } (.chunkPut Server.putEmpty) =
      { server := s, books := Books.new.upload .ofEmpty } := by
    simp only [step, stepServer, stepBooks, Server.stateAfter_chunkPut, hput,
      if_true, s]
  rw [hfirst] at hinv
  have htarget : ∃ args, Server.commitTarget (Server.externalsWith json) s
      (Server.drawsFrom 2) (Server.commitOf [ChunkHash.ofEmpty.toHex]) =
        some args ∧ args.repoId = ⟨1#128⟩ ∧
      args.chunkHashes = [ChunkHash.ofEmpty.toHex] :=
    ⟨_, rfl, rfl, rfl⟩
  obtain ⟨args, htarget, hrepo, hlisted⟩ := htarget
  have hverifiable : Server.verifiable (Server.externalsWith json)
      (Server.repoState s ⟨1#128⟩).store .ofEmpty = true := by
    have hread : ChunkStore.readChunk (Server.externalsWith json).blake3
        (Server.repoState s ⟨1#128⟩).store .ofEmpty = .ok [] := by
      refine (ChunkStore.readChunk_eq_ok_iff_of_addressed
        hinv.tidy.addressed).mpr ?_
      simp only [World.store, s, Server.withChunk, Server.repoState_setRepo,
        if_true, ChunkStore.chunkExists_writeChunk,
        ChunkStore.lookup_files_writeChunk, Server.repoState_new]
      exact ⟨rfl, rfl, rfl⟩
    rw [Server.verifiable, hread]
  have hparse : Convert.parseHashOrZero ChunkHash.ofEmpty.toHex = .ofEmpty := by
    simp [Convert.parseHashOrZero]
  have htidy : (Server.repoState s args.repoId).store.Tidy ⟨"/data"⟩
      args.repoId := by
    rw [hrepo]
    exact hinv.tidy
  have hadmits := Server.admits_of_commitTarget htarget
  have hresult : ∃ v id, outcome (Server.runCommit (Server.externalsWith json)
      ⟨"/data"⟩ (Server.drawsFrom 2) args
      (Server.commitChunks (Server.externalsWith json) s args)) s =
        .ok (.success v id) := by
    rw [Server.outcome_runCommit htidy hadmits]
    simpa [hlisted, hparse, hrepo] using hverifiable
  obtain ⟨v, id, hout⟩ := hresult
  refine ⟨v, ?_⟩
  unfold run uploadAndCommit
  rw [List.foldl_cons, hfirst, List.foldl_cons, List.foldl_nil, step, stepBooks]
  simp [htarget, hrepo, hlisted, hparse, hout, hverifiable, Books.commit,
    Books.upload, Books.new]

/-- A chunk that is uploaded and then committed once has two references,
whatever JSON does. -/
theorem countsLive_fails_after_upload_and_commit :
    ¬ ∃ json : Json,
      CountsLive
        ((run (Server.externalsWith json) ⟨"/data"⟩ ⟨1#128⟩ []
          uploadAndCommit).store ⟨1#128⟩)
        (run (Server.externalsWith json) ⟨"/data"⟩ ⟨1#128⟩ []
          uploadAndCommit).books := by
  rintro ⟨json, hcounts⟩
  have hinv : Inv ⟨"/data"⟩ ⟨1#128⟩
      (run (Server.externalsWith json) ⟨"/data"⟩ ⟨1#128⟩ [] uploadAndCommit) :=
    inv_run _ _
  obtain ⟨v, hbooks⟩ := books_uploadAndCommit json
  have htaken : (run (Server.externalsWith json) ⟨"/data"⟩ ⟨1#128⟩ []
      uploadAndCommit).books.TakenUp := by
    simp [hbooks, Books.TakenUp, Books.listed]
  have hcount := (hcounts htaken .ofEmpty).1
  rw [hinv.counts, hbooks] at hcount
  revert hcount
  simp [Books.total, Books.references, Books.listed, Books.surplus]

end Claim

end ServerCounts
end Badou
end HyperBackup
