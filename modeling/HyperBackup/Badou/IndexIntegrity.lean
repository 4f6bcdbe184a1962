import HyperBackup.Badou.Server

/-!
# The chunk index names the right bytes

What clients of the server rely on: an entry of the index that is not purged
has a chunk file whose BLAKE3 hash is the hash it is entered under.  Uploads
check the hash of what they write.  A commit does not: it writes what it can
read under the listed hashes, and no bytes where it can read nothing.

Over every sequence of uploads and commits the index is right in every state
exactly if no commit that gets to its chunks lists a hash the index does not
have, other than the hash of no bytes.
-/

namespace HyperBackup
namespace Badou
namespace IndexIntegrity

open Lib Lib.Program

section Stores

variable {layout : BadouDataLayout} {repoId : RepositoryId}
variable {blake3 : Bytes → ChunkHash}
variable {st : Store} {h : ChunkHash} {data : Bytes}

/-- Every entry that is not purged has a file with the right hash. -/
def Right (blake3 : Bytes → ChunkHash) (st : Store) : Prop :=
  ∀ h e, st.index.lookup (ChunkHash.toHex h) = some e → e.status ≠ .purged →
    ∃ d, st.files.lookup e.path = some d ∧ blake3 d = h

theorem right_empty : Right blake3 Store.empty := by
  intro h e he
  simp [Store.empty] at he

/-- In a tidy store an index is right if every known chunk has its file. -/
theorem right_iff (ht : Store.Tidy layout repoId st) :
    Right blake3 st ↔ ∀ h, ChunkStore.chunkExists st h →
      ∃ d, st.files.lookup (layout.bucketPath repoId h) = some d ∧
        blake3 d = h := by
  unfold ChunkStore.chunkExists
  constructor
  · intro hright h hknown
    obtain ⟨e, he⟩ := Option.isSome_iff_exists.mp hknown
    obtain ⟨h', hkey, hpath⟩ := ht.addressed _ _ he
    obtain rfl := ChunkHash.toHex_injective hkey
    rw [← hpath]
    refine hright h e he ?_
    simp [ht.active _ _ he]
  · intro hfiles h e he _
    obtain ⟨h', hkey, hpath⟩ := ht.addressed _ _ he
    obtain rfl := ChunkHash.toHex_injective hkey
    rw [hpath]
    exact hfiles h (by simp [he])

/-- A write leaves the index right exactly if it was and the chunk is known
or what is written has its hash. -/
theorem right_writeChunk_iff (ht : Store.Tidy layout repoId st) :
    Right blake3 (stateAfter (ChunkStore.writeChunk layout repoId h data) st) ↔
      Right blake3 st ∧ (ChunkStore.chunkExists st h ∨ blake3 data = h) := by
  rw [right_iff (ChunkStore.tidy_writeChunk _ _ ht), right_iff ht]
  simp only [ChunkStore.chunkExists_writeChunk,
    ChunkStore.lookup_files_writeChunk, Bool.or_eq_true, decide_eq_true_eq,
    (layout.bucketPath_injective repoId).eq_iff]
  by_cases hknown : ChunkStore.chunkExists st h
  · simp only [hknown, if_true, true_or, and_true]
    constructor
    · intro hfiles h' hh'
      exact hfiles h' (Or.inr hh')
    · rintro hfiles h' (rfl | hh')
      · exact hfiles h' hknown
      · exact hfiles h' hh'
  · simp only [hknown, Bool.false_eq_true, if_false, false_or]
    constructor
    · intro hfiles
      refine ⟨?_, by simpa using hfiles h (Or.inl rfl)⟩
      intro h' hh'
      have hne : h' ≠ h := fun heq => hknown (heq ▸ hh')
      simpa [hne] using hfiles h' (Or.inr hh')
    · rintro ⟨hfiles, hdata⟩ h' hh'
      by_cases heq : h' = h
      · exact ⟨data, by simp [heq], heq ▸ hdata⟩
      · simpa [heq] using hfiles h' (hh'.resolve_left heq)

/-- The same for the writes of a commit, which takes the bytes of each hash
from one place. -/
theorem right_writeChunks_iff
    (load : ChunkHash → Bytes) (hashes : List ChunkHash) :
    ∀ {st : Store}, Store.Tidy layout repoId st →
      (Right blake3 (stateAfter (ChunkStore.writeChunks layout repoId
          (hashes.map fun h => (h, load h))) st) ↔
        Right blake3 st ∧ ∀ h ∈ hashes,
          ChunkStore.chunkExists st h ∨ blake3 (load h) = h) := by
  induction hashes with
  | nil =>
      intro st _
      simp [ChunkStore.stateAfter_writeChunks]
  | cons h hashes ih =>
      intro st ht
      have htail := ih (ChunkStore.tidy_writeChunk h (load h) ht)
      simp only [ChunkStore.stateAfter_writeChunks, List.map_cons,
        List.foldl_cons, right_writeChunk_iff ht,
        ChunkStore.chunkExists_writeChunk, Bool.or_eq_true,
        decide_eq_true_eq, List.forall_mem_cons] at htail ⊢
      rw [htail, and_assoc]
      refine and_congr_right fun _ => and_congr_right fun hhead => ?_
      refine forall₂_congr fun h' _ => ?_
      constructor
      · rintro ((rfl | hold) | hload)
        · exact hhead
        · exact Or.inl hold
        · exact Or.inr hload
      · rintro (hold | hload)
        · exact Or.inl (Or.inr hold)
        · exact Or.inr hload

end Stores

/-- The requests in question. -/
inductive Op
  | chunkPut (request : Request ChunkPutRequest)
  | chunkBatchPut (request : Request (List (Except Status ChunkPutRequest)))
  | snapshotCommit (draws : RequestDraws)
      (request : Request SnapshotCommitRequest)

section Runs

variable (ext : Externals) (layout : BadouDataLayout)

/-- The server after a request, whether it is answered or refused. -/
def step (s : ServerState) : Op → ServerState
  | .chunkPut request => stateAfter (Server.chunkPut ext layout request) s
  | .chunkBatchPut request =>
      stateAfter (Server.chunkBatchPut ext layout request) s
  | .snapshotCommit draws request =>
      stateAfter (Server.snapshotCommit ext layout draws request) s

def run (s : ServerState) (ops : List Op) : ServerState :=
  ops.foldl (step ext layout) s

/-- The index of every repository is right. -/
def IndexRight (s : ServerState) : Prop :=
  ∀ r, Right ext.blake3 (Server.repoState s r).store

def AllTidy (s : ServerState) : Prop :=
  ∀ r, Store.Tidy layout r (Server.repoState s r).store

/-- A commit that gets to its chunks lists only chunks the index has, or the
chunk without bytes. -/
def Accepts (s : ServerState) : Op → Prop
  | .chunkPut _ => True
  | .chunkBatchPut _ => True
  | .snapshotCommit draws request =>
      ∀ args, Server.commitTarget ext s draws request = some args →
        ∀ text ∈ args.chunkHashes,
          ChunkStore.chunkExists (Server.repoState s args.repoId).store
              (Convert.parseHashOrZero text) ∨
            ext.blake3 [] = Convert.parseHashOrZero text

def AcceptedRun (s : ServerState) : List Op → Prop
  | [] => True
  | op :: ops => Accepts ext s op ∧ AcceptedRun (step ext layout s op) ops

/-- A chunk that was just uploaded is what a client gets, unless its hash is
also that of other data in the repository. -/
def ServesUploads (s : ServerState) : Prop :=
  ∀ put get chunk info,
    outcome (Server.chunkPut ext layout put) s = .ok info →
    put.inner.chunk = some chunk →
    (∀ r path d, (Server.repoState s r).store.files.lookup path = some d →
      ext.blake3 d = ext.blake3 chunk.data → d = chunk.data) →
    get.auth = .ok () → get.inner.repoId = put.inner.repoId →
    get.inner.chunkHash = chunk.chunkHash →
    outcome (Server.chunkGet ext get)
        (stateAfter (Server.chunkPut ext layout put) s) =
      .ok { chunkHash := chunk.chunkHash
            data := chunk.data
            size := UInt64.ofNat chunk.data.length }

end Runs

section Steps

variable {ext : Externals} {layout : BadouDataLayout} {s : ServerState}

theorem allTidy_withChunk
    {r : RepositoryId} {h : ChunkHash} {data : Bytes}
    (ht : AllTidy layout s) :
    AllTidy layout (Server.withChunk layout r h data s) := by
  intro r'
  rw [Server.withChunk, Server.repoState_setRepo]
  by_cases hr : r' = r
  · subst hr
    simpa using ChunkStore.tidy_writeChunk _ _ (ht r')
  · simpa [hr] using ht r'

/-- Writing data under its own hash neither spoils nor mends an index. -/
theorem indexRight_withChunk_iff
    {r : RepositoryId} {data : Bytes} (ht : AllTidy layout s) :
    IndexRight ext (Server.withChunk layout r (ext.blake3 data) data s) ↔
      IndexRight ext s := by
  refine forall_congr' fun r' => ?_
  rw [Server.withChunk, Server.repoState_setRepo]
  by_cases hr : r' = r
  · subst hr
    simp [right_writeChunk_iff (ht r')]
  · simp [hr]

/-- Tidiness, together with whether the index is right. -/
def Keeps (ext : Externals) (layout : BadouDataLayout) (p : Prop)
    (s : ServerState) : Prop :=
  AllTidy layout s ∧ (IndexRight ext s ↔ p)

theorem keeps_withChunk
    {p : Prop} {r : RepositoryId} {data : Bytes}
    (hk : Keeps ext layout p s) :
    Keeps ext layout p
      (Server.withChunk layout r (ext.blake3 data) data s) :=
  ⟨allTidy_withChunk hk.1, (indexRight_withChunk_iff hk.1).trans hk.2⟩

theorem keeps_chunkPut {p : Prop} (request : Request ChunkPutRequest) :
    Preserves (Server.chunkPut ext layout request) (Keeps ext layout p) := by
  intro s hk
  rw [Server.stateAfter_chunkPut]
  cases htarget : Server.putTarget ext s request with
  | none =>
      exact hk
  | some target =>
      obtain ⟨r, h, data⟩ := target
      obtain ⟨-, -, rfl, -⟩ := Server.putTarget_eq_some_iff.mp htarget
      exact keeps_withChunk hk

theorem keeps_batchPutOne {p : Prop}
    (response : ChunkBatchPutResponse)
    (message : Except Status ChunkPutRequest) :
    Preserves (Server.batchPutOne ext layout response message)
      (Keeps ext layout p) := by
  unfold Server.batchPutOne
  refine preserves_bind (preserves_ofResult _ _ _) fun req => ?_
  refine preserves_bind (preserves_ofResult _ _ _) fun parsed => ?_
  obtain ⟨r, chunk, hash, data⟩ := parsed
  simp only
  split
  · exact preserves_pure _ _
  next hhash =>
    obtain rfl : ext.blake3 data = hash := by simpa using hhash
    refine preserves_bind ?_ fun _ => preserves_bind ?_ fun result => ?_
    · intro s hk
      rw [Server.stateAfter_openRepo]
      exact hk
    · intro s hk
      obtain ⟨loc, hrun⟩ :=
        Server.run_onStore_putChunk layout r (ext.blake3 data) data s
      simp only [stateAfter, run_attempt, hrun]
      exact keeps_withChunk hk
    · cases result with
      | error e =>
          exact preserves_pure _ _
      | ok loc =>
          exact preserves_bind (fun _ hk => hk) fun _ => preserves_pure _ _

theorem keeps_chunkBatchPut {p : Prop}
    (request : Request (List (Except Status ChunkPutRequest))) :
    Preserves (Server.chunkBatchPut ext layout request)
      (Keeps ext layout p) := by
  unfold Server.chunkBatchPut
  refine preserves_bind (preserves_ofResult _ _ _) fun _ => ?_
  exact preserves_foldlM _ (fun response message _ =>
    keeps_batchPutOne response message) _

/-- The writes of a commit leave the index right exactly if it was right and
every listed chunk is known or has no bytes. -/
theorem right_loadChunks_iff
    {repoId : RepositoryId} {st : Store}
    (texts : List String) (ht : Store.Tidy layout repoId st) :
    Right ext.blake3 (stateAfter (ChunkStore.writeChunks layout repoId
        (Server.loadChunks ext st texts)) st) ↔
      Right ext.blake3 st ∧ ∀ text ∈ texts,
        ChunkStore.chunkExists st (Convert.parseHashOrZero text) ∨
          ext.blake3 [] = Convert.parseHashOrZero text := by
  rw [Server.loadChunks_eq, right_writeChunks_iff _ _ ht]
  refine and_congr_right fun _ => ?_
  rw [List.forall_mem_map]
  refine forall₂_congr fun text _ => or_congr_right' fun hnew => ?_
  rw [Server.load_of_not_chunkExists hnew]

/-- One request leaves the index right exactly if it was right before and the
request is acceptable. -/
theorem indexRight_step_iff
    (ht : AllTidy layout s) (op : Op) :
    AllTidy layout (step ext layout s op) ∧
      (IndexRight ext (step ext layout s op) ↔
        IndexRight ext s ∧ Accepts ext s op) := by
  cases op with
  | chunkPut request =>
      simp only [Accepts, and_true]
      exact keeps_chunkPut request s ⟨ht, Iff.rfl⟩
  | chunkBatchPut request =>
      simp only [Accepts, and_true]
      exact keeps_chunkBatchPut request s ⟨ht, Iff.rfl⟩
  | snapshotCommit draws request =>
      simp only [AllTidy, IndexRight, step, Server.store_snapshotCommit, Accepts]
      cases htarget : Server.commitTarget ext s draws request with
      | none =>
          exact ⟨ht, by simp⟩
      | some args =>
          simp only [Option.some.injEq, forall_eq']
          constructor
          · intro r
            split
            · exact ChunkStore.tidy_writeChunks _ (ht r)
            · exact ht r
          · constructor
            · intro hafter
              have hcommit := hafter args.repoId
              rw [if_pos rfl, Server.commitChunks,
                right_loadChunks_iff _ (ht args.repoId)] at hcommit
              refine ⟨fun r => ?_, hcommit.2⟩
              by_cases hr : r = args.repoId
              · rw [hr]
                exact hcommit.1
              · have hother := hafter r
                rwa [if_neg hr] at hother
            · rintro ⟨hright, hlisted⟩ r
              by_cases hr : r = args.repoId
              · subst hr
                rw [if_pos rfl, Server.commitChunks,
                  right_loadChunks_iff _ (ht args.repoId)]
                exact ⟨hright args.repoId, hlisted⟩
              · rw [if_neg hr]
                exact hright r

/-- A run leaves the index right exactly if it was right and every request
of the run is acceptable. -/
theorem indexRight_run_iff (ops : List Op) :
    ∀ {s : ServerState}, AllTidy layout s →
      AllTidy layout (run ext layout s ops) ∧
        (IndexRight ext (run ext layout s ops) ↔
          IndexRight ext s ∧ AcceptedRun ext layout s ops) := by
  induction ops with
  | nil =>
      intro s ht
      exact ⟨ht, by simp [run, AcceptedRun]⟩
  | cons op ops ih =>
      intro s ht
      obtain ⟨htidy, hstep⟩ := indexRight_step_iff ht op
      obtain ⟨hrun, htail⟩ := ih htidy
      refine ⟨hrun, ?_⟩
      rw [AcceptedRun, ← and_assoc, ← hstep]
      exact htail

/-- In a tidy store with a right index, data written under its hash is read. -/
theorem readChunk_writeChunk
    {repoId : RepositoryId} {st : Store} {data : Bytes}
    (ht : Store.Tidy layout repoId st) (hright : Right ext.blake3 st)
    (noCollision : ∀ path d, st.files.lookup path = some d →
      ext.blake3 d = ext.blake3 data → d = data) :
    ChunkStore.readChunk ext.blake3
        (stateAfter (ChunkStore.writeChunk layout repoId (ext.blake3 data) data)
          st) (ext.blake3 data) = .ok data := by
  rw [ChunkStore.readChunk_eq_ok_iff]
  cases he : st.index.lookup (ext.blake3 data).toHex with
  | none =>
      refine ⟨ChunkStore.newEntry layout repoId (ext.blake3 data) data,
        ?_, ?_, rfl⟩
      · simp [ChunkStore.lookup_writeChunk, he]
      · simp [ChunkStore.lookup_files_writeChunk, ChunkStore.chunkExists, he,
          ChunkStore.newEntry]
  | some e =>
      obtain ⟨d, hfile, hhash⟩ := hright _ e he (by simp [ht.active _ e he])
      obtain rfl := noCollision _ d hfile hhash
      refine ⟨e.incremented, ?_, ?_, rfl⟩
      · simp [ChunkStore.lookup_writeChunk, he]
      · rw [ChunkStore.lookup_files_writeChunk]
        simp only [ChunkStore.chunkExists, he, Option.isSome_some, if_true]
        exact hfile

/-- Where the index is right, clients get what they have uploaded. -/
theorem servesUploads_of_indexRight
    (ht : AllTidy layout s) (hright : IndexRight ext s) :
    ServesUploads ext layout s := by
  intro put get chunk info hput hchunk noCollision hauth hrepo hhash
  obtain ⟨⟨repoId, hash, data⟩, htarget⟩ := Server.exists_putTarget hput
  rw [Server.stateAfter_chunkPut, htarget]
  obtain ⟨-, ⟨chunk', hparse⟩, rfl, -⟩ :=
    Server.putTarget_eq_some_iff.mp htarget
  obtain ⟨hid, hchunk', hhash', rfl⟩ := Server.parsePut_eq_ok_iff.mp hparse
  obtain rfl : chunk' = chunk := Option.some.inj (hchunk'.symm.trans hchunk)
  have hread := readChunk_writeChunk (ht repoId) (hright repoId)
    (noCollision repoId)
  have hget : ChunkOps.getChunk ext.blake3 (Server.repoState
      (Server.withChunk layout repoId (ext.blake3 chunk'.data) chunk'.data s)
      repoId).store (ext.blake3 chunk'.data) = .ok chunk'.data := by
    simp only [ChunkOps.getChunk, Server.withChunk, Server.repoState_setRepo,
      if_true, hread]
  have hopen : ((Server.withChunk layout repoId (ext.blake3 chunk'.data)
      chunk'.data s).repos.lookup repoId).isSome := by
    simp [Server.withChunk, Server.setRepo]
  simp only
  unfold Server.chunkGet
  rw [outcome_bind_of_run (run_ofResult_eq_ok.mpr ⟨hauth, rfl⟩),
    outcome_bind_of_run (run_ofResult_eq_ok.mpr ⟨hrepo ▸ hid, rfl⟩),
    outcome_bind_of_run (run_ofResult_eq_ok.mpr ⟨hhash ▸ hhash', rfl⟩),
    outcome_bind_of_run (Server.run_openRepo hopen),
    outcome_bind_of_run (run_ofResult_eq_ok.mpr ⟨hget, rfl⟩), hhash]
  rfl

end Steps

section Claim

theorem allTidy_new (layout : BadouDataLayout) (repoIds : List RepositoryId) :
    AllTidy layout (Server.new repoIds) := by
  intro r
  rw [Server.repoState_new]
  exact Store.tidy_empty

theorem indexRight_new (ext : Externals) (repoIds : List RepositoryId) :
    IndexRight ext (Server.new repoIds) := by
  intro r
  rw [Server.repoState_new]
  exact right_empty

/-- From a new server on, the index is right after a run exactly if every
commit lists chunks that are there, and then clients get what they upload. -/
theorem run_indexRight_iff
    (ext : Externals) (layout : BadouDataLayout)
    (repoIds : List RepositoryId) (ops : List Op) :
    (IndexRight ext (run ext layout (Server.new repoIds) ops) ↔
        AcceptedRun ext layout (Server.new repoIds) ops) ∧
      (AcceptedRun ext layout (Server.new repoIds) ops →
        ServesUploads ext layout (run ext layout (Server.new repoIds) ops)) := by
  obtain ⟨htidy, hiff⟩ := indexRight_run_iff ops (allTidy_new layout repoIds)
  rw [and_iff_right (indexRight_new ext repoIds)] at hiff
  exact ⟨hiff, fun hacc => servesUploads_of_indexRight htidy (hiff.mpr hacc)⟩

/-- A commit that lists a text that is no hash enters the zero hash, with a
file of no bytes, whatever JSON does. -/
theorem indexRight_fails_after_snapshotCommit :
    ¬ ∃ json : Json, IndexRight (Server.externalsWith json)
      (run (Server.externalsWith json) ⟨"/data"⟩ (Server.new [⟨1⟩])
        [.snapshotCommit (Server.drawsFrom 2) (Server.commitOf ["not a hash"])]) := by
  rintro ⟨json, hright⟩
  have hrun := (indexRight_run_iff _ (allTidy_new ⟨"/data"⟩ [⟨1⟩])).2.mp hright
  obtain ⟨-, haccepts, -⟩ := hrun
  have hlisted := haccepts _ rfl "not a hash" (by simp [Server.commitOf])
  have hparse : Convert.parseHashOrZero "not a hash" = .zero := by
    decide
  rw [hparse, Server.repoState_new] at hlisted
  rcases hlisted with hknown | hempty
  · exact absurd hknown (by decide)
  · exact absurd hempty (by simp only [Server.externalsWith]; decide)

end Claim

end IndexIntegrity
end Badou
end HyperBackup
