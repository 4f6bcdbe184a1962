import HyperBackup.Badou.Recovery

/-!
# Garbage collection against concurrent writers

A collection and any number of `write_chunk` calls run at the same time.  The
index is locked for single operations only, so their steps interleave freely:
a writer looks its chunk up, then either increments the count or writes the
file and registers the chunk; the collector takes its candidate list once and
then, for each candidate, removes the file and marks the entry.

`writer_alone` and `collector_alone` say that the steps of one party, taken
without interruption, are the operations of the store.
-/

namespace HyperBackup
namespace Badou
namespace GcRace

open Lib Lib.Program RecoveryEngine

/-- The next step of a `write_chunk` call. -/
inductive WriterPc
  | lookup
  | increment
  | writeFile
  | register
  | done
deriving DecidableEq

structure Writer where
  chunkHash : ChunkHash
  data : Bytes
  pc : WriterPc
deriving DecidableEq

/-- The next step of an `execute_gc` call: take the candidates, remove the
file of the first candidate left, or mark the given entry as purged. -/
inductive Collector
  | takeCandidates (order : IterOrder (String × ChunkIndexEntry))
  | removeFile (todo : List (String × ChunkIndexEntry))
  | markPurged (hashHex : String) (todo : List (String × ChunkIndexEntry))

structure Config where
  store : Store
  writers : List Writer
  collector : Collector

/-- Whose turn it is. -/
inductive Action
  | writer (i : Nat)
  | collector
deriving DecidableEq

section Steps

variable (layout : BadouDataLayout) (repoId : RepositoryId)

def stepWriter (st : Store) (w : Writer) : Store × Writer :=
  let hashHex := w.chunkHash.toHex
  match w.pc with
  | .lookup =>
      match st.index.lookup hashHex with
      | some _ => (st, { w with pc := .increment })
      | none => (st, { w with pc := .writeFile })
  | .increment =>
      (stateAfter (liftIndex fun index => index.incrementRefCount hashHex) st,
        { w with pc := .done })
  | .writeFile =>
      (st.writeFile (layout.bucketPath repoId w.chunkHash) w.data,
        { w with pc := .register })
  | .register =>
      (st.onIndex fun index => index.register hashHex
          (ChunkStore.newEntry layout repoId w.chunkHash w.data),
        { w with pc := .done })
  | .done => (st, w)

def stepCollector (st : Store) : Collector → Store × Collector
  | .takeCandidates order => (st, .removeFile (st.index.gcCandidates order))
  | .removeFile [] => (st, .removeFile [])
  | .removeFile ((hashHex, entry) :: todo) =>
      if entry.status ≠ .gcPending then (st, .removeFile todo)
      else
        match st.index.lookup (GcExecutor.parseHash hashHex).toHex with
        | some e =>
            (st.removeFile e.path,
              .markPurged (GcExecutor.parseHash hashHex).toHex todo)
        | none => (st, .markPurged hashHex todo)
  | .markPurged hashHex todo =>
      (stateAfter (liftIndex fun index => index.updateStatus hashHex .purged) st,
        .removeFile todo)

def step (cfg : Config) : Action → Config
  | .writer i =>
      match cfg.writers[i]? with
      | none => cfg
      | some w =>
          let (store, w) := stepWriter layout repoId cfg.store w
          { cfg with store := store, writers := cfg.writers.set i w }
  | .collector =>
      let (store, collector) := stepCollector cfg.store cfg.collector
      { cfg with store := store, collector := collector }

def run (cfg : Config) (schedule : List Action) : Config :=
  schedule.foldl (step layout repoId) cfg

/-- All calls are about to begin. -/
def start
    (st : Store) (writes : List (ChunkHash × Bytes))
    (order : IterOrder (String × ChunkIndexEntry)) : Config where
  store := st
  writers := writes.map fun c =>
    { chunkHash := c.1, data := c.2, pc := .lookup }
  collector := .takeCandidates order

end Steps

/-- The candidates the collector has taken and not yet dealt with. -/
def Collector.pending : Collector → List String
  | .takeCandidates _ => []
  | .removeFile todo => todo.map Prod.fst
  | .markPurged hashHex todo => hashHex :: todo.map Prod.fst

/-- No writer is about to revive a chunk that is gone or going: when a writer
increments a count, the chunk's file is there and the chunk is not among the
candidates the collector still has to deal with. -/
def Undisturbed (cfg : Config) : Action → Prop
  | .collector => True
  | .writer i =>
      ∀ w, cfg.writers[i]? = some w → w.pc = .increment →
        w.chunkHash.toHex ∉ cfg.collector.pending ∧
        ∀ e, cfg.store.index.lookup w.chunkHash.toHex = some e →
          (cfg.store.files.lookup e.path).isSome

def UndisturbedRun
    (layout : BadouDataLayout) (repoId : RepositoryId) (cfg : Config) :
    List Action → Prop
  | [] => True
  | a :: schedule =>
      Undisturbed cfg a ∧
        UndisturbedRun layout repoId (step layout repoId cfg a) schedule

/-- Every chunk that is referenced can be read. -/
def Readable (blake3 : Bytes → ChunkHash) (st : Store) : Prop :=
  ∀ h, ChunkStore.refCount st h > 0 →
    ∃ data, ChunkStore.readChunk blake3 st h = .ok data

section Invariant

variable {layout : BadouDataLayout} {repoId : RepositoryId}
variable {blake3 : Bytes → ChunkHash}
variable {st st' : Store} {pending pending' : List String} {w : Writer}

/-- Files hold what their names say, referenced chunks have their files, and
nothing refers to a chunk the collector still has to deal with. -/
structure StoreOk
    (layout : BadouDataLayout) (repoId : RepositoryId)
    (blake3 : Bytes → ChunkHash)
    (st : Store) (pending : List String) : Prop where
  addressed : st.Addressed layout repoId
  content : ∀ h d, st.files.lookup (layout.bucketPath repoId h) = some d →
    blake3 d = h
  kept : ∀ k e, st.index.lookup k = some e → e.refCount ≠ 0 →
    (st.files.lookup e.path).isSome
  idle : ∀ k ∈ pending, ∃ e, st.index.lookup k = some e ∧ e.refCount = 0

/-- A writer brings the bytes of its hash.  While it creates a chunk, the
collector has nothing to do with that chunk; before it registers the chunk,
the file is there. -/
structure WriterOk
    (layout : BadouDataLayout) (repoId : RepositoryId)
    (blake3 : Bytes → ChunkHash)
    (st : Store) (pending : List String) (w : Writer) : Prop where
  honest : blake3 w.data = w.chunkHash
  creating : w.pc = .writeFile ∨ w.pc = .register →
    w.chunkHash.toHex ∉ pending ∧
    ∀ e, st.index.lookup w.chunkHash.toHex = some e → e.status = .active
  written : w.pc = .register →
    (st.files.lookup (layout.bucketPath repoId w.chunkHash)).isSome

/-- What keeps a writer that does not move in order. -/
theorem WriterOk.frame
    (hw : WriterOk layout repoId blake3 st pending w)
    (hp : w.chunkHash.toHex ∉ pending → w.chunkHash.toHex ∉ pending')
    (hl : w.chunkHash.toHex ∉ pending → ∀ e',
      st'.index.lookup w.chunkHash.toHex = some e' → e'.status = .active ∨
        ∃ e, st.index.lookup w.chunkHash.toHex = some e ∧ e'.status = e.status)
    (hf : w.chunkHash.toHex ∉ pending →
      (st.files.lookup (layout.bucketPath repoId w.chunkHash)).isSome →
      (st'.files.lookup (layout.bucketPath repoId w.chunkHash)).isSome) :
    WriterOk layout repoId blake3 st' pending' w where
  honest := hw.honest
  creating := by
    intro hpc
    obtain ⟨hnot, hactive⟩ := hw.creating hpc
    refine ⟨hp hnot, ?_⟩
    intro e' he'
    rcases hl hnot e' he' with h | ⟨e, he, hs⟩
    · exact h
    · exact hs.trans (hactive e he)
  written := by
    intro hpc
    exact hf (hw.creating (Or.inr hpc)).1 (hw.written hpc)

theorem lookup_onIndex_register_eq_some {k k' : String} {e e' : ChunkIndexEntry} :
    (st.onIndex fun index => index.register k e').index.lookup k' = some e ↔
      k' = k ∧ e = e' ∨ k' ≠ k ∧ st.index.lookup k' = some e := by
  rw [Store.index_onIndex, BadouIndex.lookup_register]
  by_cases h : k' = k
  · simp [h, eq_comm]
  · simp [h]

/-- Replacing an entry does not disturb a writer, unless it changes the
status of an entry the collector has nothing to do with. -/
theorem WriterOk.register
    {k : String} {e' : ChunkIndexEntry}
    (hw : WriterOk layout repoId blake3 st pending w)
    (hk : k ∈ pending ∨ e'.status = .active ∨
      ∃ e, st.index.lookup k = some e ∧ e'.status = e.status) :
    WriterOk layout repoId blake3
      (st.onIndex fun index => index.register k e') pending w := by
  refine hw.frame (fun hn => hn) ?_ (fun _ hf => hf)
  intro hnot e'' he''
  rcases lookup_onIndex_register_eq_some.mp he'' with ⟨hkey, rfl⟩ | ⟨-, hold⟩
  · rcases hk with hmem | hactive | ⟨e, he, hs⟩
    · exact absurd (hkey ▸ hmem) hnot
    · exact Or.inl hactive
    · exact Or.inr ⟨e, hkey ▸ he, hs⟩
  · exact Or.inr ⟨e'', hold, rfl⟩

/-- The invariant of a configuration. -/
structure Inv
    (layout : BadouDataLayout) (repoId : RepositoryId)
    (blake3 : Bytes → ChunkHash) (cfg : Config) : Prop where
  store : StoreOk layout repoId blake3 cfg.store cfg.collector.pending
  writers : ∀ w ∈ cfg.writers,
    WriterOk layout repoId blake3 cfg.store cfg.collector.pending w

/-- Referenced chunks can be read wherever the store is in order. -/
theorem readable_of_storeOk
    (hs : StoreOk layout repoId blake3 st pending) : Readable blake3 st := by
  intro h hcount
  unfold ChunkStore.refCount at hcount
  cases he : st.index.lookup h.toHex with
  | none =>
      simp [he] at hcount
  | some e =>
      have hne : e.refCount ≠ 0 := by
        intro h0
        simp [he, h0] at hcount
      obtain ⟨d, hd⟩ := Option.isSome_iff_exists.mp (hs.kept _ e he hne)
      obtain ⟨h', hk, hpath⟩ := hs.addressed _ e he
      obtain rfl := ChunkHash.toHex_injective hk
      have hb : blake3 d = h := hs.content h d (by rw [← hpath]; exact hd)
      exact ⟨d, ChunkStore.readChunk_eq_ok_iff.mpr ⟨e, he, hd, hb⟩⟩

/-- Replacing an entry in place, with its file there if it is referenced. -/
theorem StoreOk.register
    {h : ChunkHash} {e' : ChunkIndexEntry}
    (hs : StoreOk layout repoId blake3 st pending)
    (hpath : e'.path = layout.bucketPath repoId h)
    (hkept : e'.refCount ≠ 0 → (st.files.lookup e'.path).isSome)
    (hidle : h.toHex ∈ pending → e'.refCount = 0) :
    StoreOk layout repoId blake3
      (st.onIndex fun index => index.register h.toHex e') pending where
  addressed := by
    intro k e he
    rcases lookup_onIndex_register_eq_some.mp he with ⟨hk, rfl⟩ | ⟨-, hold⟩
    · exact ⟨h, hk, hpath⟩
    · exact hs.addressed k e hold
  content := hs.content
  kept := by
    intro k e he hne
    rcases lookup_onIndex_register_eq_some.mp he with ⟨-, rfl⟩ | ⟨-, hold⟩
    · exact hkept hne
    · exact hs.kept k e hold hne
  idle := by
    intro k hmem
    by_cases hk : k = h.toHex
    · subst hk
      exact ⟨e', by simp, hidle hmem⟩
    · obtain ⟨e, he, h0⟩ := hs.idle k hmem
      exact ⟨e, by simp [hk, he], h0⟩

theorem storeOk_empty : StoreOk layout repoId blake3 .empty [] where
  addressed := Store.tidy_empty.addressed
  content := by
    intro h d hd
    simp [Store.empty] at hd
  kept := by
    intro k e he
    simp [Store.empty] at he
  idle := by simp

/-- Writing the right bytes into a chunk's file. -/
theorem StoreOk.writeFile
    {h : ChunkHash} {d : Bytes} (hd : blake3 d = h)
    (hs : StoreOk layout repoId blake3 st pending) :
    StoreOk layout repoId blake3
      (st.writeFile (layout.bucketPath repoId h) d) pending where
  addressed := hs.addressed
  content := by
    intro h' d' hd'
    rw [Store.lookup_files_writeFile] at hd'
    split at hd'
    · next heq =>
        obtain rfl := layout.bucketPath_injective repoId heq
        obtain rfl := Option.some.inj hd'
        exact hd
    · exact hs.content h' d' hd'
  kept := by
    intro k e he hne
    rw [Store.lookup_files_writeFile]
    split
    · rfl
    · exact hs.kept k e he hne
  idle := hs.idle

/-- A new chunk is stored under its hash. -/
theorem StoreOk.writeChunk_new
    {h : ChunkHash} {data : Bytes} (hs : StoreOk layout repoId blake3 st [])
    (hnew : st.index.lookup h.toHex = none) (hdata : blake3 data = h) :
    StoreOk layout repoId blake3
      (stateAfter (ChunkStore.writeChunk layout repoId h data) st) [] := by
  simp only [stateAfter, ChunkStore.run_writeChunk_new hnew]
  refine (hs.writeFile hdata).register rfl (fun _ => ?_) (by simp)
  simp [ChunkStore.newEntry]

/-- Taking a reference away leaves the files as they are. -/
theorem StoreOk.decrementRefCount
    {k : String} (hs : StoreOk layout repoId blake3 st []) :
    StoreOk layout repoId blake3
      (stateAfter (liftIndex fun index => index.decrementRefCount k) st) [] := by
  cases he : st.index.lookup k with
  | none =>
      rw [stateAfter_liftIndex_error (BadouIndex.decrementRefCount_of_lookup_none he)]
      exact hs
  | some e =>
      rw [stateAfter_liftIndex (BadouIndex.decrementRefCount_of_lookup he)]
      obtain ⟨h, rfl, hpath⟩ := hs.addressed k e he
      have hkept : e.decremented.refCount ≠ 0 → (st.files.lookup e.path).isSome := by
        intro hne
        refine hs.kept _ e he fun h0 => hne ?_
        simp [ChunkIndexEntry.decremented, h0]
      have hnext : StoreOk layout repoId blake3
          (st.onIndex fun index => index.register h.toHex e.decremented) [] :=
        hs.register hpath hkept (by simp)
      exact hnext

/-- Removing the file of a pending candidate. -/
theorem StoreOk.removeFile
    {h : ChunkHash} (hmem : h.toHex ∈ pending)
    (hs : StoreOk layout repoId blake3 st pending) :
    StoreOk layout repoId blake3
      (st.removeFile (layout.bucketPath repoId h)) pending where
  addressed := hs.addressed
  content := by
    intro h' d' hd'
    rw [Store.lookup_files_removeFile] at hd'
    split at hd'
    · cases hd'
    · exact hs.content h' d' hd'
  kept := by
    intro k e he hne
    rw [Store.lookup_files_removeFile, if_neg]
    · exact hs.kept k e he hne
    · intro hpath
      -- The entry would be the pending one, to which nothing refers.
      obtain ⟨h', rfl, hpath'⟩ := hs.addressed k e he
      obtain rfl := layout.bucketPath_injective repoId
        (hpath'.symm.trans hpath)
      obtain ⟨e₀, he₀, h0⟩ := hs.idle _ hmem
      cases he.symm.trans he₀
      exact hne h0
  idle := hs.idle

theorem WriterOk.removeFile
    {h : ChunkHash} (hmem : h.toHex ∈ pending)
    (hw : WriterOk layout repoId blake3 st pending w) :
    WriterOk layout repoId blake3
      (st.removeFile (layout.bucketPath repoId h)) pending w := by
  refine hw.frame (fun hn => hn) (fun _ e he => Or.inr ⟨e, he, rfl⟩) ?_
  intro hnot hf
  rw [Store.lookup_files_removeFile, if_neg]
  · exact hf
  · intro hpath
    obtain heq := layout.bucketPath_injective repoId hpath
    exact hnot (heq ▸ hmem)

/-- Fewer pending candidates are no harder to respect. -/
theorem StoreOk.mono
    (hs : StoreOk layout repoId blake3 st pending)
    (hp : ∀ k ∈ pending', k ∈ pending) :
    StoreOk layout repoId blake3 st pending' :=
  ⟨hs.addressed, hs.content, hs.kept, fun k hk => hs.idle k (hp k hk)⟩

theorem WriterOk.mono
    (hw : WriterOk layout repoId blake3 st pending w)
    (hp : ∀ k ∈ pending', k ∈ pending) :
    WriterOk layout repoId blake3 st pending' w :=
  hw.frame (fun hn hmem => hn (hp _ hmem))
    (fun _ e he => Or.inr ⟨e, he, rfl⟩) (fun _ hf => hf)

/-- The store is in order after a step, and so are the writers that do not take it. -/
structure KeepsOrder
    (layout : BadouDataLayout) (repoId : RepositoryId)
    (blake3 : Bytes → ChunkHash)
    (st : Store) (pending : List String) (st' : Store) (pending' : List String) :
    Prop where
  store : StoreOk layout repoId blake3 st' pending'
  writers : ∀ w, WriterOk layout repoId blake3 st pending w →
    WriterOk layout repoId blake3 st' pending' w

theorem StoreOk.keepsOrder (hs : StoreOk layout repoId blake3 st pending) :
    KeepsOrder layout repoId blake3 st pending st pending :=
  ⟨hs, fun _ hw => hw⟩

theorem KeepsOrder.mono {pending'' : List String}
    (h : KeepsOrder layout repoId blake3 st pending st' pending')
    (hp : ∀ k ∈ pending'', k ∈ pending') :
    KeepsOrder layout repoId blake3 st pending st' pending'' :=
  ⟨h.store.mono hp, fun w hw => (h.writers w hw).mono hp⟩

theorem StoreOk.keepsOrder_register
    {h : ChunkHash} {e' : ChunkIndexEntry}
    (hs : StoreOk layout repoId blake3 st pending)
    (hpath : e'.path = layout.bucketPath repoId h)
    (hkept : e'.refCount ≠ 0 → (st.files.lookup e'.path).isSome)
    (hidle : h.toHex ∈ pending → e'.refCount = 0)
    (hstatus : h.toHex ∈ pending ∨ e'.status = .active ∨
      ∃ e, st.index.lookup h.toHex = some e ∧ e'.status = e.status) :
    KeepsOrder layout repoId blake3 st pending
      (st.onIndex fun index => index.register h.toHex e') pending :=
  ⟨hs.register hpath hkept hidle, fun _ hw => hw.register hstatus⟩

theorem StoreOk.keepsOrder_writeFile
    {h : ChunkHash} {d : Bytes} (hs : StoreOk layout repoId blake3 st pending)
    (hd : blake3 d = h) :
    KeepsOrder layout repoId blake3 st pending
      (st.writeFile (layout.bucketPath repoId h) d) pending := by
  refine ⟨hs.writeFile hd, fun w hw => ?_⟩
  refine hw.frame (fun hn => hn) (fun _ e he => Or.inr ⟨e, he, rfl⟩) ?_
  intro _ hf
  rw [Store.lookup_files_writeFile]
  split
  · rfl
  · exact hf

theorem StoreOk.keepsOrder_removeFile
    {h : ChunkHash} (hs : StoreOk layout repoId blake3 st pending)
    (hmem : h.toHex ∈ pending) :
    KeepsOrder layout repoId blake3 st pending
      (st.removeFile (layout.bucketPath repoId h)) pending :=
  ⟨hs.removeFile hmem, fun _ hw => hw.removeFile hmem⟩

/-- A step of a writer keeps that writer in order. -/
theorem stepWriter_ok
    (hs : StoreOk layout repoId blake3 st pending)
    (hw : WriterOk layout repoId blake3 st pending w) :
    WriterOk layout repoId blake3 (stepWriter layout repoId st w).1 pending
      (stepWriter layout repoId st w).2 := by
  obtain ⟨h, data, pc⟩ := w
  have hdata : blake3 data = h := hw.honest
  cases pc with
  | lookup =>
      cases he : st.index.lookup h.toHex with
      | some e =>
          simp only [stepWriter, he]
          exact ⟨hdata, by simp, by simp⟩
      | none =>
          simp only [stepWriter, he]
          refine ⟨hdata, fun _ => ⟨?_, by simp [he]⟩, by simp⟩
          intro hmem
          obtain ⟨e, he', -⟩ := hs.idle _ hmem
          simp [he] at he'
  | increment =>
      exact ⟨hdata, by simp [stepWriter], by simp [stepWriter]⟩
  | writeFile =>
      refine ⟨hdata, fun _ => hw.creating (Or.inl rfl), fun _ => ?_⟩
      simp [stepWriter]
  | register =>
      exact ⟨hdata, by simp [stepWriter], by simp [stepWriter]⟩
  | done =>
      exact hw

/-- A step of a writer that revives no chunk the collector is after. -/
theorem keepsOrder_stepWriter
    (hs : StoreOk layout repoId blake3 st pending)
    (hw : WriterOk layout repoId blake3 st pending w)
    (hund : w.pc = .increment → w.chunkHash.toHex ∉ pending ∧
      ∀ e, st.index.lookup w.chunkHash.toHex = some e →
        (st.files.lookup e.path).isSome) :
    KeepsOrder layout repoId blake3 st pending (stepWriter layout repoId st w).1
      pending := by
  obtain ⟨h, data, pc⟩ := w
  have hdata : blake3 data = h := hw.honest
  cases pc with
  | lookup =>
      simp only [stepWriter]
      split <;> exact hs.keepsOrder
  | increment =>
      obtain ⟨hnot, hfile⟩ := hund rfl
      simp only [stepWriter]
      cases he : st.index.lookup h.toHex with
      | none =>
          rw [stateAfter_liftIndex_error
            (BadouIndex.incrementRefCount_of_lookup_none he)]
          exact hs.keepsOrder
      | some e =>
          rw [stateAfter_liftIndex
            (BadouIndex.incrementRefCount_of_lookup he)]
          obtain ⟨h', hk, hpath⟩ := hs.addressed _ e he
          obtain rfl := ChunkHash.toHex_injective hk
          exact hs.keepsOrder_register hpath (fun _ => hfile e he)
            (fun hmem => absurd hmem hnot) (Or.inr (Or.inr ⟨e, he, rfl⟩))
  | writeFile =>
      exact hs.keepsOrder_writeFile hdata
  | register =>
      obtain ⟨hnot, -⟩ := hw.creating (Or.inr rfl)
      have hfile := hw.written rfl
      exact hs.keepsOrder_register rfl (fun _ => hfile)
        (fun hmem => absurd hmem hnot) (Or.inr (Or.inl rfl))
  | done =>
      exact hs.keepsOrder

/-- The candidates are chunks that no writer is creating. -/
theorem keepsOrder_takeCandidates
    (hs : StoreOk layout repoId blake3 st [])
    (order : IterOrder (String × ChunkIndexEntry)) :
    KeepsOrder layout repoId blake3 st [] st
      ((st.index.gcCandidates order).map Prod.fst) := by
  have hcandidate : ∀ k ∈ (st.index.gcCandidates order).map Prod.fst,
      ∃ e, st.index.lookup k = some e ∧ e.status = .gcPending ∧ e.refCount = 0 := by
    intro k hk
    obtain ⟨e, he, hcand⟩ := (BadouIndex.mem_map_fst_gcCandidates _ _).mp hk
    exact ⟨e, he, ChunkIndexEntry.isCandidate_iff.mp hcand⟩
  refine ⟨⟨hs.addressed, hs.content, hs.kept, fun k hk => ?_⟩, fun w hw => ?_⟩
  · obtain ⟨e, he, -, h0⟩ := hcandidate k hk
    exact ⟨e, he, h0⟩
  · refine ⟨hw.honest, fun hpc => ?_, hw.written⟩
    obtain ⟨-, hactive⟩ := hw.creating hpc
    refine ⟨fun hk => ?_, hactive⟩
    obtain ⟨e, he, hpending, -⟩ := hcandidate _ hk
    rw [hactive e he] at hpending
    cases hpending

/-- Every step of the collector keeps store and writers in order. -/
theorem keepsOrder_stepCollector
    {c : Collector} (hs : StoreOk layout repoId blake3 st c.pending) :
    KeepsOrder layout repoId blake3 st c.pending
      (stepCollector st c).1 (stepCollector st c).2.pending := by
  cases c with
  | takeCandidates order =>
      exact keepsOrder_takeCandidates hs order
  | removeFile todo =>
      cases todo with
      | nil =>
          exact hs.keepsOrder
      | cons c todo =>
          obtain ⟨k, entry⟩ := c
          have hsub : ∀ k' ∈ (Collector.removeFile todo).pending,
              k' ∈ (Collector.removeFile ((k, entry) :: todo)).pending :=
            fun k' hk' => List.mem_cons_of_mem _ hk'
          by_cases hstatus : entry.status = .gcPending
          · obtain ⟨e, he, -⟩ := hs.idle k (by simp [Collector.pending])
            obtain ⟨h, rfl, hpath⟩ := hs.addressed k e he
            simp only [stepCollector, hstatus, ne_eq, not_true_eq_false,
              if_false, GcExecutor.parseHash_toHex, he, hpath]
            exact hs.keepsOrder_removeFile (by simp [Collector.pending])
          · simp only [stepCollector, ne_eq, hstatus, not_false_eq_true,
              if_true]
            exact hs.keepsOrder.mono hsub
  | markPurged k todo =>
      have hmem : k ∈ (Collector.markPurged k todo).pending := by
        simp [Collector.pending]
      have hsub : ∀ k' ∈ (Collector.removeFile todo).pending,
          k' ∈ (Collector.markPurged k todo).pending :=
        fun k' hk' => List.mem_cons_of_mem _ hk'
      obtain ⟨e, he, h0⟩ := hs.idle k hmem
      obtain ⟨h, rfl, hpath⟩ := hs.addressed k e he
      simp only [stepCollector]
      rw [stateAfter_liftIndex
        (BadouIndex.updateStatus_of_lookup he .purged)]
      refine KeepsOrder.mono
        (hs.keepsOrder_register hpath ?_ (fun _ => h0) (Or.inl hmem)) hsub
      exact fun hne => absurd h0 hne

theorem inv_step
    {cfg : Config} {a : Action}
    (hinv : Inv layout repoId blake3 cfg) (ha : Undisturbed cfg a) :
    Inv layout repoId blake3 (step layout repoId cfg a) := by
  cases a with
  | collector =>
      have hkeeps := keepsOrder_stepCollector hinv.store
      exact ⟨hkeeps.store, fun w hw => hkeeps.writers w (hinv.writers w hw)⟩
  | writer i =>
      cases hi : cfg.writers[i]? with
      | none =>
          simpa only [step, hi] using hinv
      | some w =>
          have hw := hinv.writers w (List.mem_of_getElem? hi)
          have hkeeps := keepsOrder_stepWriter hinv.store hw (ha w hi)
          simp only [step, hi]
          refine ⟨hkeeps.store, ?_⟩
          intro w' hw'
          rcases List.mem_or_eq_of_mem_set hw' with hold | rfl
          · exact hkeeps.writers w' (hinv.writers w' hold)
          · exact stepWriter_ok hinv.store hw

theorem inv_run (schedule : List Action) :
    ∀ {cfg : Config}, Inv layout repoId blake3 cfg →
      UndisturbedRun layout repoId cfg schedule →
      Inv layout repoId blake3 (run layout repoId cfg schedule) := by
  induction schedule with
  | nil =>
      intro cfg hinv _
      exact hinv
  | cons a schedule ih =>
      intro cfg hinv hrun
      exact ih (inv_step hinv hrun.1) hrun.2

end Invariant

section Alone

variable {layout : BadouDataLayout} {repoId : RepositoryId}

/-- The steps of one writer in a row are a `write_chunk`. -/
theorem writer_alone
    (st : Store) (h : ChunkHash) (data : Bytes) (c : Collector) :
    (run layout repoId
      { store := st
        writers := [{ chunkHash := h, data := data, pc := .lookup }]
        collector := c }
      [.writer 0, .writer 0, .writer 0]).store =
      stateAfter (ChunkStore.writeChunk layout repoId h data) st := by
  cases he : st.index.lookup h.toHex with
  | some e =>
      have hinc : stateAfter (liftIndex fun index =>
          index.incrementRefCount h.toHex) st =
            { st with index := st.index.register h.toHex e.incremented } :=
        stateAfter_liftIndex (BadouIndex.incrementRefCount_of_lookup he)
      have hwrite : stateAfter (ChunkStore.writeChunk layout repoId h data) st =
          { st with index := st.index.register h.toHex e.incremented } := by
        simp only [stateAfter, ChunkStore.run_writeChunk_known he, Store.onIndex]
      rw [hwrite]
      simp [run, step, stepWriter, he, hinc]
  | none =>
      simp [run, step, stepWriter, he, stateAfter,
        ChunkStore.run_writeChunk_new he]

/-- Two steps of the collector per candidate purge the candidates. -/
theorem collector_todo
    (writers : List Writer) (todo : List (String × ChunkIndexEntry)) :
    ∀ (st : Store) (report : GcReport),
      (∀ c ∈ todo, c.2.status = .gcPending ∧ ∃ h e, c.1 = ChunkHash.toHex h ∧
        st.index.lookup c.1 = some e) →
      (run layout repoId
        { store := st, writers := writers, collector := .removeFile todo }
        (List.replicate (2 * todo.length) .collector)).store =
        stateAfter (todo.foldlM GcExecutor.purgeCandidate report) st := by
  induction todo with
  | nil =>
      intro st report _
      rfl
  | cons c todo ih =>
      intro st report htodo
      obtain ⟨k, entry⟩ := c
      obtain ⟨hstatus, h, e, hk, he⟩ := htodo (k, entry) (by simp)
      simp only at hstatus hk he
      subst hk
      let st₁ := (st.removeFile e.path).onIndex
        fun index => index.register h.toHex (e.withStatus .purged)
      have hrun := GcExecutor.run_purgeCandidate report hstatus he
      have hsteps : 2 * ((h.toHex, entry) :: todo).length =
          2 * todo.length + 1 + 1 := by
        simp only [List.length_cons]
        omega
      have htwo : step layout repoId (step layout repoId
          { store := st
            writers := writers
            collector := .removeFile ((h.toHex, entry) :: todo) } .collector)
          .collector =
          { store := st₁, writers := writers, collector := .removeFile todo } := by
        have he' : (st.removeFile e.path).index.lookup h.toHex = some e := he
        simp only [step, stepCollector, hstatus, ne_eq, not_true_eq_false,
          if_false, GcExecutor.parseHash_toHex, he]
        rw [stateAfter_liftIndex
          (BadouIndex.updateStatus_of_lookup he' .purged)]
        rfl
      have hrest : ∀ c ∈ todo, c.2.status = .gcPending ∧
          ∃ h e, c.1 = ChunkHash.toHex h ∧ st₁.index.lookup c.1 = some e := by
        intro c hc
        obtain ⟨hstatus', h', e', hk', he'⟩ := htodo c (by simp [hc])
        refine ⟨hstatus', h', ?_⟩
        by_cases heq : c.1 = h.toHex
        · exact ⟨e.withStatus .purged, hk', by simp [st₁, heq]⟩
        · exact ⟨e', hk', by simp [st₁, heq, he']⟩
      rw [hsteps, List.replicate_succ, List.replicate_succ]
      simp only [run, List.foldl_cons, htwo]
      rw [List.foldlM_cons, stateAfter_bind]
      simp only [outcome, stateAfter, hrun]
      exact ih st₁ _ hrest

/-- The steps of the collector in a row are an `execute_gc`. -/
theorem collector_alone
    (st : Store) (writers : List Writer)
    (order : IterOrder (String × ChunkIndexEntry))
    (hkeys : ∀ k e, st.index.lookup k = some e → ∃ h : ChunkHash, k = h.toHex) :
    (run layout repoId
      { store := st, writers := writers, collector := .takeCandidates order }
      (List.replicate (2 * (st.index.gcCandidates order).length + 1)
        .collector)).store =
      stateAfter (GcExecutor.executeGc order) st := by
  rw [List.replicate_succ]
  refine (collector_todo writers (st.index.gcCandidates order) st
    GcExecutor.newReport ?_).trans ?_
  · rintro ⟨k, e⟩ hmem
    obtain ⟨he, hcand⟩ := (BadouIndex.mem_gcCandidates _ _ _).mp hmem
    obtain ⟨h, hk⟩ := hkeys k e he
    exact ⟨(ChunkIndexEntry.isCandidate_iff.mp hcand).1, h, e, hk, he⟩
  · unfold GcExecutor.executeGc
    rw [stateAfter_bind]
    rfl

end Alone

section Race

/-- Whatever the interleaving, as long as no writer revives a chunk that is
gone or going, every referenced chunk can be read in every state reached. -/
theorem run_readable
    (layout : BadouDataLayout) (repoId : RepositoryId)
    (blake3 : Bytes → ChunkHash) (st : Store)
    (writes : List (ChunkHash × Bytes))
    (order : IterOrder (String × ChunkIndexEntry)) (schedule : List Action)
    (hst : StoreOk layout repoId blake3 st [])
    (honest : ∀ c ∈ writes, blake3 c.2 = c.1)
    (hrun : UndisturbedRun layout repoId (start st writes order) schedule) :
    Readable blake3
      (run layout repoId (start st writes order) schedule).store := by
  have hstart : Inv layout repoId blake3 (start st writes order) := by
    refine ⟨hst, ?_⟩
    intro w hw
    obtain ⟨c, hc, rfl⟩ := List.mem_map.mp hw
    exact ⟨honest c hc, by simp, by simp⟩
  exact readable_of_storeOk (inv_run schedule hstart hrun).store

/-- A store of two chunks, one of them no longer referenced. -/
def halfIdleStore : Store :=
  stateAfter (liftIndex fun index =>
      index.decrementRefCount ChunkHash.ofEmpty.toHex)
    (stateAfter (ChunkStore.writeChunks ⟨"/data"⟩ ⟨1⟩
      [(abcHash, [0x61, 0x62, 0x63]), (.ofEmpty, [])]) .empty)

/-- While the collector purges the one chunk, a writer finds the other and
adds a reference to it. -/
def purgeBesideWrite : List Action :=
  [.writer 0, .collector, .collector, .writer 0, .collector]

theorem storeOk_halfIdle : StoreOk ⟨"/data"⟩ ⟨1⟩ abcBlake3 halfIdleStore [] := by
  have habc : StoreOk ⟨"/data"⟩ ⟨1⟩ abcBlake3
      (stateAfter (ChunkStore.writeChunk ⟨"/data"⟩ ⟨1⟩ abcHash [0x61, 0x62, 0x63])
        .empty) [] :=
    storeOk_empty.writeChunk_new rfl rfl
  have hempty : (stateAfter (ChunkStore.writeChunk ⟨"/data"⟩ ⟨1⟩ abcHash
      [0x61, 0x62, 0x63]) .empty).index.lookup ChunkHash.ofEmpty.toHex = none := by
    decide
  exact (habc.writeChunk_new hempty rfl).decrementRefCount

theorem run_readable_halfIdle :
    ChunkStore.refCount halfIdleStore abcHash = 1 ∧
    (run ⟨"/data"⟩ ⟨1⟩ (start halfIdleStore [(abcHash, [0x61, 0x62, 0x63])] .asStored)
      purgeBesideWrite).collector = .removeFile [] ∧
    ChunkStore.readChunk abcBlake3
      (run ⟨"/data"⟩ ⟨1⟩ (start halfIdleStore [(abcHash, [0x61, 0x62, 0x63])] .asStored)
        purgeBesideWrite).store .ofEmpty = .error (.io noSuchFile) ∧
    ChunkStore.refCount
      (run ⟨"/data"⟩ ⟨1⟩ (start halfIdleStore [(abcHash, [0x61, 0x62, 0x63])] .asStored)
        purgeBesideWrite).store abcHash = 2 ∧
    Readable abcBlake3
      (run ⟨"/data"⟩ ⟨1⟩ (start halfIdleStore [(abcHash, [0x61, 0x62, 0x63])] .asStored)
        purgeBesideWrite).store := by
  refine ⟨by decide, rfl, by decide, by decide, ?_⟩
  refine run_readable ⟨"/data"⟩ ⟨1⟩ abcBlake3 halfIdleStore
    [(abcHash, [0x61, 0x62, 0x63])] .asStored purgeBesideWrite ?_ ?_ ?_
  · exact storeOk_halfIdle
  · intro c hc
    obtain rfl := List.mem_singleton.mp hc
    rfl
  · refine ⟨?_, trivial, trivial, ?_, trivial, trivial⟩
    · intro w hw hpc
      obtain rfl := Option.some.inj hw
      cases hpc
    · intro w hw _
      obtain rfl := Option.some.inj hw
      have hfile : ((step ⟨"/data"⟩ ⟨1⟩ (step ⟨"/data"⟩ ⟨1⟩ (step ⟨"/data"⟩ ⟨1⟩
          (start halfIdleStore [(abcHash, [0x61, 0x62, 0x63])] .asStored) (.writer 0))
            .collector) .collector).store.files.lookup
              (BadouDataLayout.bucketPath ⟨"/data"⟩ ⟨1⟩ abcHash)).isSome := by
        decide
      refine ⟨by decide, fun e he => ?_⟩
      have hpath : e.path = BadouDataLayout.bucketPath ⟨"/data"⟩ ⟨1⟩ abcHash := by
        obtain rfl := Option.some.inj he
        rfl
      rw [hpath]
      exact hfile

/-- A chunk that is stored but no longer referenced. -/
def idleStore : Store :=
  stateAfter (liftIndex fun index =>
      index.decrementRefCount ChunkHash.ofEmpty.toHex)
    (stateAfter (ChunkStore.writeChunk ⟨"/data"⟩ ⟨1⟩ .ofEmpty []) .empty)

/-- A writer finds the chunk while the collector has it on its list: in the
end the chunk is referenced and gone. -/
theorem not_readable_after_race :
    ChunkStore.readChunk (fun _ => .ofEmpty) idleStore .ofEmpty = .ok [] ∧
    (run ⟨"/data"⟩ ⟨1⟩ (start idleStore [(.ofEmpty, [])] .asStored)
      [.collector, .writer 0, .collector, .collector, .writer 0]).writers =
        [{ chunkHash := .ofEmpty, data := [], pc := .done }] ∧
    (run ⟨"/data"⟩ ⟨1⟩ (start idleStore [(.ofEmpty, [])] .asStored)
      [.collector, .writer 0, .collector, .collector, .writer 0]).collector =
        .removeFile [] ∧
    ¬ Readable (fun _ => .ofEmpty)
      (run ⟨"/data"⟩ ⟨1⟩ (start idleStore [(.ofEmpty, [])] .asStored)
        [.collector, .writer 0, .collector, .collector, .writer 0]).store := by
  refine ⟨by decide, by decide, rfl, ?_⟩
  intro hr
  obtain ⟨d, hd⟩ := hr .ofEmpty (by decide)
  have herr : ChunkStore.readChunk (fun _ => .ofEmpty)
      (run ⟨"/data"⟩ ⟨1⟩ (start idleStore [(.ofEmpty, [])] .asStored)
        [.collector, .writer 0, .collector, .collector, .writer 0]).store
      .ofEmpty = .error (.io noSuchFile) := by
    decide
  rw [herr] at hd
  cases hd

end Race

end GcRace
end Badou
end HyperBackup
