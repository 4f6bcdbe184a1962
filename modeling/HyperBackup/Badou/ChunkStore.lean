import HyperBackup.Badou.Index
import HyperBackup.Lib.Path
import HyperBackup.Lib.Program

/-!
# The chunk store of a BaDou repository

A chunk lies in a file whose path is made of the hash of the chunk, and the
index says for every chunk where it lies and how often it is referenced.  The
state of a store is its index together with the chunk files on disk.

Operations are programs over that state.  A failed operation keeps what it
has already done, as the source does.
-/

namespace HyperBackup
namespace Badou

open Lib Lib.Program

/-- The directory layout below the data root of a server. -/
structure BadouDataLayout where
  dataRoot : String
deriving DecidableEq

namespace BadouDataLayout

variable (layout : BadouDataLayout) (repoId : RepositoryId)

def repoRoot : String :=
  Path.join (Path.join layout.dataRoot "repositories") (uuidText repoId.uuid)

def chunksDir : String :=
  Path.join (layout.repoRoot repoId) "chunks"

def bucketPath (chunkHash : ChunkHash) : String :=
  let pfx := Hex.encode (chunkHash.digest.toList.take 1)
  Path.join (Path.join (layout.chunksDir repoId) pfx)
    (chunkHash.toHex ++ ".chunk")

/-- Each chunk has a file of its own. -/
theorem bucketPath_injective :
    Function.Injective (layout.bucketPath repoId) := by
  intro h h' heq
  have hlen :
      (h.toHex ++ ".chunk").toList.length =
        (h'.toHex ++ ".chunk").toList.length := by
    simp [ChunkHash.length_toHex]
  have hname := Path.join_right_injective hlen heq
  exact ChunkHash.toHex_injective ((String.append_left_inj _).mp hname)

end BadouDataLayout

inductive ChunkStoreError
  | io (text : String)
  | hashMismatch (expected actual : String)
  | index (e : IndexError)
  | notFound (chunkHash : String)
deriving DecidableEq

def ChunkStoreError.message : ChunkStoreError → String
  | .io text => "IO error: " ++ text
  | .hashMismatch expected actual =>
      "hash mismatch: expected " ++ expected ++ ", got " ++ actual
  | .index e => "index error: " ++ e.message
  | .notFound chunkHash => "chunk not found: " ++ chunkHash

/-- What the operating system says about a file that is not there. -/
def noSuchFile : String :=
  "No such file or directory (os error 2)"

structure ChunkLocation where
  bucket : String
  path : String
  deduplicated : Bool
deriving DecidableEq

/-- The index of a repository and its chunk files. -/
structure Store where
  index : BadouIndex
  files : HashMap String Bytes

namespace Store

/-- Every entry stands under the text of a hash and names that hash's file. -/
def Addressed
    (layout : BadouDataLayout) (repoId : RepositoryId) (st : Store) : Prop :=
  ∀ k e, st.index.lookup k = some e →
    ∃ h : ChunkHash, k = h.toHex ∧ e.path = layout.bucketPath repoId h

/-- A repository that has never been written to. -/
def empty : Store :=
  { index := .inMemory, files := ∅ }

def onIndex (st : Store) (f : BadouIndex → BadouIndex) : Store :=
  { st with index := f st.index }

def writeFile (st : Store) (path : String) (data : Bytes) : Store :=
  { st with files := st.files.insert path data }

def removeFile (st : Store) (path : String) : Store :=
  { st with files := st.files.erase path }

def readFile (st : Store) (path : String) : Except ChunkStoreError Bytes :=
  match st.files.lookup path with
  | none => .error (.io noSuchFile)
  | some data => .ok data

/-- In such a store no two chunks share a file. -/
theorem Addressed.eq_of_path
    {layout : BadouDataLayout} {repoId : RepositoryId} {st : Store}
    (ha : st.Addressed layout repoId) {k k' : String} {e e' : ChunkIndexEntry}
    (he : st.index.lookup k = some e) (he' : st.index.lookup k' = some e')
    (hpath : e.path = e'.path) :
    k = k' := by
  obtain ⟨h, rfl, hp⟩ := ha k e he
  obtain ⟨h', rfl, hp'⟩ := ha k' e' he'
  exact congrArg ChunkHash.toHex
    (layout.bucketPath_injective repoId (hp.symm.trans (hpath.trans hp')))

/-- Changing entries without moving their files keeps the store addressed. -/
theorem Addressed.of_map
    {layout : BadouDataLayout} {repoId : RepositoryId} {st st' : Store}
    (ha : st.Addressed layout repoId)
    {g : String → ChunkIndexEntry → ChunkIndexEntry}
    (hg : ∀ k e, (g k e).path = e.path)
    (hl : ∀ k, st'.index.lookup k = (st.index.lookup k).map (g k)) :
    st'.Addressed layout repoId := by
  intro k e' he'
  rw [hl] at he'
  obtain ⟨e, he, rfl⟩ := Option.map_eq_some_iff.mp he'
  obtain ⟨h, hk, hpath⟩ := ha k e he
  exact ⟨h, hk, (hg k e).trans hpath⟩

/-- Entries name their own files and none is marked for collection. -/
structure Tidy
    (layout : BadouDataLayout) (repoId : RepositoryId) (st : Store) : Prop where
  addressed : st.Addressed layout repoId
  active : ∀ k e, st.index.lookup k = some e → e.status = .active

theorem tidy_empty {layout : BadouDataLayout} {repoId : RepositoryId} :
    Tidy layout repoId empty where
  addressed := by
    intro k e he
    simp [empty] at he
  active := by
    intro k e he
    simp [empty] at he

section Views

variable (st : Store) (f : BadouIndex → BadouIndex)
variable (path p : String) (data : Bytes)

@[simp] theorem index_onIndex : (st.onIndex f).index = f st.index :=
  rfl

@[simp] theorem files_onIndex : (st.onIndex f).files = st.files :=
  rfl

@[simp] theorem index_writeFile : (st.writeFile path data).index = st.index :=
  rfl

@[simp] theorem index_removeFile : (st.removeFile path).index = st.index :=
  rfl

@[simp] theorem lookup_files_writeFile :
    (st.writeFile path data).files.lookup p =
      if p = path then some data else st.files.lookup p :=
  HashMap.lookup_insert_of _ _ _ _

@[simp] theorem lookup_files_removeFile :
    (st.removeFile path).files.lookup p =
      if p = path then none else st.files.lookup p :=
  HashMap.lookup_erase_of _ _ _

end Views

end Store

/-- Run an update of the index inside a store program. -/
def liftIndex {α : Type}
    (f : BadouIndex → Except IndexError (α × BadouIndex)) :
    EStateM ChunkStoreError Store α := do
  let st ← get
  match f st.index with
  | .error e => throw (.index e)
  | .ok (a, index) =>
      set { st with index := index }
      return a

theorem run_liftIndex {α : Type}
    {f : BadouIndex → Except IndexError (α × BadouIndex)}
    {s : Store} {a : α} {index : BadouIndex}
    (h : f s.index = .ok (a, index)) :
    (liftIndex f).run s = .ok a { s with index := index } := by
  simp only [liftIndex, EStateM.run_bind, EStateM.run_get, h,
    EStateM.run_set, EStateM.run_pure]

/-- An update of the index that fails leaves the store alone. -/
theorem stateAfter_liftIndex_error {α : Type}
    {f : BadouIndex → Except IndexError (α × BadouIndex)}
    {s : Store} {e : IndexError} (h : f s.index = .error e) :
    stateAfter (liftIndex f) s = s := by
  have hrun : (liftIndex f).run s = .error (.index e) s := by
    simp only [liftIndex, EStateM.run_bind, EStateM.run_get, h]
    rfl
  simp only [stateAfter, hrun]

theorem stateAfter_liftIndex {α : Type}
    {f : BadouIndex → Except IndexError (α × BadouIndex)}
    {s : Store} {a : α} {index : BadouIndex}
    (h : f s.index = .ok (a, index)) :
    stateAfter (liftIndex f) s = { s with index := index } := by
  simp only [stateAfter, run_liftIndex h]

namespace ChunkStore

section Operations

variable (layout : BadouDataLayout) (repoId : RepositoryId)
variable (blake3 : Bytes → ChunkHash)

/-- The entry a chunk gets when it is first written. -/
def newEntry (chunkHash : ChunkHash) (encryptedData : Bytes) :
    ChunkIndexEntry where
  bucket := Hex.encode (chunkHash.digest.toList.take 1)
  path := layout.bucketPath repoId chunkHash
  refCount := 1
  size := encryptedData.length
  storedSize := encryptedData.length
  status := .active

def chunkExists (st : Store) (chunkHash : ChunkHash) : Bool :=
  (st.index.lookup chunkHash.toHex).isSome

/-- The chunk is new, and the path is that of its file. -/
def takesPath (st : Store) (p : String) (c : ChunkHash × Bytes) : Bool :=
  !chunkExists st c.1 && decide (p = layout.bucketPath repoId c.1)

def refCount (st : Store) (chunkHash : ChunkHash) : UInt32 :=
  ((st.index.lookup chunkHash.toHex).map fun e => e.refCount).getD 0

def writeChunk (chunkHash : ChunkHash) (encryptedData : Bytes) :
    EStateM ChunkStoreError Store ChunkLocation := do
  let hashHex := chunkHash.toHex
  let st ← get
  match st.index.lookup hashHex with
  | some existing =>
      let _ ← liftIndex fun index => index.incrementRefCount hashHex
      return {
        bucket := existing.bucket
        path := existing.path
        deduplicated := true }
  | none =>
      let entry := newEntry layout repoId chunkHash encryptedData
      modify fun st => st.writeFile entry.path encryptedData
      modify fun st => st.onIndex fun index => index.register hashHex entry
      return {
        bucket := entry.bucket
        path := entry.path
        deduplicated := false }

/-- Write a list of chunks, one after the other. -/
def writeChunks (chunks : List (ChunkHash × Bytes)) :
    EStateM ChunkStoreError Store Unit :=
  chunks.foldlM (fun _ chunk => do
    let _ ← writeChunk layout repoId chunk.1 chunk.2
    return ()) ()

def readChunk (st : Store) (chunkHash : ChunkHash) :
    Except ChunkStoreError Bytes := do
  match st.index.lookup chunkHash.toHex with
  | none => throw (.notFound chunkHash.toHex)
  | some entry =>
      let data ← st.readFile entry.path
      let actualHash := blake3 data
      if actualHash ≠ chunkHash then
        throw (.hashMismatch chunkHash.toHex actualHash.toHex)
      return data

def deleteChunkPhysical (chunkHash : ChunkHash) :
    EStateM ChunkStoreError Store Unit := do
  let hashHex := chunkHash.toHex
  let st ← get
  match st.index.lookup hashHex with
  | none => throw (.notFound hashHex)
  | some entry =>
      modify fun st => st.removeFile entry.path
      liftIndex fun index => index.updateStatus hashHex .purged

end Operations

section Specs

variable {layout : BadouDataLayout} {repoId : RepositoryId}
variable {blake3 : Bytes → ChunkHash}
variable {st : Store} {h : ChunkHash} {data : Bytes} {e : ChunkIndexEntry}

/-- Writing a chunk the index knows adds a reference and touches no file. -/
theorem run_writeChunk_known
    (he : st.index.lookup h.toHex = some e) :
    (writeChunk layout repoId h data).run st =
      .ok { bucket := e.bucket, path := e.path, deduplicated := true }
        (st.onIndex fun index => index.register h.toHex e.incremented) := by
  simp only [writeChunk, EStateM.run_bind, EStateM.run_get, he,
    run_liftIndex (s := st) (f := fun index => index.incrementRefCount h.toHex)
      (BadouIndex.incrementRefCount_of_lookup he),
    EStateM.run_pure, Store.onIndex]

/-- Writing an unknown chunk writes its file and registers it. -/
theorem run_writeChunk_new
    (he : st.index.lookup h.toHex = none) :
    (writeChunk layout repoId h data).run st =
      .ok { bucket := (newEntry layout repoId h data).bucket
            path := (newEntry layout repoId h data).path
            deduplicated := false }
        ((st.writeFile (layout.bucketPath repoId h) data).onIndex
          fun index => index.register h.toHex (newEntry layout repoId h data)) := by
  simp only [writeChunk, EStateM.run_bind, EStateM.run_get, he,
    EStateM.run_modify, EStateM.run_pure, newEntry]

/-- Writing never fails. -/
theorem exists_run_writeChunk
    (layout : BadouDataLayout) (repoId : RepositoryId)
    (st : Store) (h : ChunkHash) (data : Bytes) :
    ∃ loc, (writeChunk layout repoId h data).run st =
      .ok loc (stateAfter (writeChunk layout repoId h data) st) := by
  cases he : st.index.lookup h.toHex with
  | some e =>
      simp only [stateAfter, run_writeChunk_known he]
      exact ⟨_, rfl⟩
  | none =>
      simp only [stateAfter, run_writeChunk_new he]
      exact ⟨_, rfl⟩

/-- Writing leaves the chunk lists of the versions alone. -/
@[simp] theorem versionChunks_writeChunk :
    (stateAfter (writeChunk layout repoId h data) st).index.versionChunks =
      st.index.versionChunks := by
  cases he : st.index.lookup h.toHex with
  | some e =>
      simp [stateAfter, run_writeChunk_known he]
  | none =>
      simp [stateAfter, run_writeChunk_new he]

/-- The entries after a write. -/
theorem lookup_writeChunk (k : String) :
    (stateAfter (writeChunk layout repoId h data) st).index.lookup k =
      if k = h.toHex then
        some (((st.index.lookup k).map .incremented).getD
          (newEntry layout repoId h data))
      else st.index.lookup k := by
  cases he : st.index.lookup h.toHex with
  | some e =>
      by_cases hk : k = h.toHex
      · simp [stateAfter, run_writeChunk_known he, hk, he]
      · simp [stateAfter, run_writeChunk_known he, hk]
  | none =>
      by_cases hk : k = h.toHex
      · simp [stateAfter, run_writeChunk_new he, hk, he]
      · simp [stateAfter, run_writeChunk_new he, hk]

/-- The files after a write. -/
theorem lookup_files_writeChunk (p : String) :
    (stateAfter (writeChunk layout repoId h data) st).files.lookup p =
      if chunkExists st h then st.files.lookup p
      else if p = layout.bucketPath repoId h then some data
      else st.files.lookup p := by
  unfold chunkExists
  cases he : st.index.lookup h.toHex with
  | some e =>
      simp [stateAfter, run_writeChunk_known he]
  | none =>
      simp [stateAfter, run_writeChunk_new he]

theorem chunkExists_writeChunk {h' : ChunkHash} :
    chunkExists (stateAfter (writeChunk layout repoId h data) st) h' =
      (decide (h' = h) || chunkExists st h') := by
  unfold chunkExists
  rw [lookup_writeChunk]
  by_cases hh : h' = h
  · simp [hh]
  · simp [hh, ChunkHash.toHex_inj]

theorem addressed_writeChunk (ha : st.Addressed layout repoId) :
    (stateAfter (writeChunk layout repoId h data) st).Addressed
      layout repoId := by
  intro k e' he'
  rw [lookup_writeChunk] at he'
  by_cases hk : k = h.toHex
  · rw [if_pos hk, Option.some.injEq] at he'
    subst he'
    refine ⟨h, hk, ?_⟩
    cases he : st.index.lookup k with
    | none =>
        rfl
    | some e =>
        obtain ⟨h', hk', hpath⟩ := ha k e he
        obtain rfl := ChunkHash.toHex_injective (hk.symm.trans hk')
        exact hpath
  · rw [if_neg hk] at he'
    exact ha k e' he'

theorem tidy_writeChunk
    (h : ChunkHash) (data : Bytes) (ht : st.Tidy layout repoId) :
    Store.Tidy layout repoId
      (stateAfter (writeChunk layout repoId h data) st) where
  addressed := addressed_writeChunk ht.addressed
  active := by
    intro k e' he'
    rw [lookup_writeChunk] at he'
    by_cases hk : k = h.toHex
    · rw [if_pos hk, Option.some.injEq] at he'
      subst he'
      cases he : st.index.lookup k with
      | none =>
          rfl
      | some e =>
          exact ht.active k e he
    · rw [if_neg hk] at he'
      exact ht.active k e' he'

/-- Writing a list of chunks never fails either. -/
theorem run_writeChunks
    (layout : BadouDataLayout) (repoId : RepositoryId)
    (chunks : List (ChunkHash × Bytes)) :
    ∀ st : Store, (writeChunks layout repoId chunks).run st =
      .ok () (chunks.foldl
        (fun st c => stateAfter (writeChunk layout repoId c.1 c.2) st) st) := by
  unfold writeChunks
  induction chunks with
  | nil =>
      intro st
      rfl
  | cons c chunks ih =>
      intro st
      obtain ⟨loc, hrun⟩ := exists_run_writeChunk layout repoId st c.1 c.2
      rw [List.foldlM_cons, bind_assoc, List.foldl_cons]
      simp only [EStateM.run_bind, hrun, pure_bind, ih]

theorem stateAfter_writeChunks
    (chunks : List (ChunkHash × Bytes)) :
    stateAfter (writeChunks layout repoId chunks) st =
      chunks.foldl
        (fun st c => stateAfter (writeChunk layout repoId c.1 c.2) st) st := by
  simp only [stateAfter, run_writeChunks]

theorem tidy_writeChunks
    (chunks : List (ChunkHash × Bytes)) (ht : Store.Tidy layout repoId st) :
    Store.Tidy layout repoId
      (stateAfter (writeChunks layout repoId chunks) st) := by
  rw [stateAfter_writeChunks]
  exact List.foldlRecOn chunks _ ht fun _ h _ _ => tidy_writeChunk _ _ h

theorem versionChunks_writeChunks (chunks : List (ChunkHash × Bytes)) :
    (stateAfter (writeChunks layout repoId chunks) st).index.versionChunks =
      st.index.versionChunks := by
  rw [stateAfter_writeChunks]
  refine List.foldlRecOn chunks _
    (motive := fun st' : Store =>
      st'.index.versionChunks = st.index.versionChunks)
    rfl ?_
  intro st' hst' c _
  rw [versionChunks_writeChunk, hst']

/-- Reading returns the file's bytes exactly if they have the right hash. -/
theorem readChunk_eq_ok_iff :
    readChunk blake3 st h = .ok data ↔
      ∃ e, st.index.lookup h.toHex = some e ∧
        st.files.lookup e.path = some data ∧ blake3 data = h := by
  unfold readChunk Store.readFile
  cases he : st.index.lookup h.toHex with
  | none =>
      simp [throw, throwThe, MonadExceptOf.throw]
  | some e =>
      cases hf : st.files.lookup e.path with
      | none =>
          simp [hf, bind, Except.bind]
      | some bytes =>
          by_cases hb : blake3 bytes = h
          · simp only [hf, hb, bind, Except.bind, pure, Except.pure,
              ne_eq, not_true_eq_false, if_false, Except.ok.injEq]
            constructor
            · rintro rfl
              exact ⟨e, rfl, hf, hb⟩
            · rintro ⟨e', he', hf', -⟩
              cases he'
              exact Option.some.inj (hf.symm.trans hf')
          · simp only [hf, hb, bind, Except.bind, ne_eq, not_false_eq_true,
              if_true, throw, throwThe, MonadExceptOf.throw]
            constructor
            · intro hcontra
              cases hcontra
            · rintro ⟨e', he', hf', hb'⟩
              cases he'
              cases hf.symm.trans hf'
              exact absurd hb' hb

/-- A write adds one reference to its chunk. -/
theorem refCount_writeChunk (h' : ChunkHash) :
    refCount (stateAfter (writeChunk layout repoId h data) st) h' =
      refCount st h' + if h' = h then 1 else 0 := by
  unfold refCount
  rw [lookup_writeChunk]
  by_cases hh : h' = h
  · subst hh
    cases st.index.lookup h'.toHex with
    | none =>
        simp [newEntry]
    | some e =>
        simp [ChunkIndexEntry.incremented]
  · simp [hh]

theorem refCount_writeChunks
    (chunks : List (ChunkHash × Bytes)) (h' : ChunkHash) :
    ∀ st : Store, refCount (stateAfter (writeChunks layout repoId chunks) st) h' =
      refCount st h' + UInt32.ofNat ((chunks.map Prod.fst).count h') := by
  induction chunks with
  | nil =>
      intro st
      simp [stateAfter_writeChunks]
  | cons c chunks ih =>
      intro st
      simp only [stateAfter_writeChunks] at ih ⊢
      rw [List.foldl_cons, ih, refCount_writeChunk, List.map_cons,
        List.count_cons, Nat.add_comm, UInt32.ofNat_add, UInt32.add_assoc]
      by_cases hh : h' = c.1
      · simp [hh]
      · have hne : c.1 ≠ h' := fun heq => hh heq.symm
        simp [hh, hne]

/-- Where entries name their own files, a chunk is read from the file that
belongs to its hash. -/
theorem readChunk_eq_ok_iff_of_addressed (ha : st.Addressed layout repoId) :
    readChunk blake3 st h = .ok data ↔
      chunkExists st h ∧
        st.files.lookup (layout.bucketPath repoId h) = some data ∧
        blake3 data = h := by
  rw [readChunk_eq_ok_iff, chunkExists]
  constructor
  · rintro ⟨e, he, hfile, hhash⟩
    obtain ⟨h', hkey, hpath⟩ := ha _ _ he
    obtain rfl := ChunkHash.toHex_injective hkey
    exact ⟨by simp [he], hpath ▸ hfile, hhash⟩
  · rintro ⟨hknown, hfile, hhash⟩
    obtain ⟨e, he⟩ := Option.isSome_iff_exists.mp hknown
    obtain ⟨h', hkey, hpath⟩ := ha _ _ he
    obtain rfl := ChunkHash.toHex_injective hkey
    exact ⟨e, he, hpath ▸ hfile, hhash⟩

/-- A write does not change what is read of a chunk that is already there. -/
theorem readChunk_writeChunk_of_exists
    {h' : ChunkHash} {d : Bytes} (ha : st.Addressed layout repoId)
    (hknown : chunkExists st h') :
    readChunk blake3 (stateAfter (writeChunk layout repoId h data) st) h' =
        .ok d ↔
      readChunk blake3 st h' = .ok d := by
  rw [readChunk_eq_ok_iff_of_addressed (addressed_writeChunk ha),
    readChunk_eq_ok_iff_of_addressed ha, chunkExists_writeChunk,
    lookup_files_writeChunk]
  by_cases hh : h' = h
  · simp [← hh, hknown]
  · simp [hh, (layout.bucketPath_injective repoId).eq_iff]

theorem readChunk_writeChunks_of_exists
    (chunks : List (ChunkHash × Bytes)) {h' : ChunkHash} {d : Bytes} :
    ∀ {st : Store}, st.Addressed layout repoId → chunkExists st h' →
      (readChunk blake3 (stateAfter (writeChunks layout repoId chunks) st) h' =
          .ok d ↔
        readChunk blake3 st h' = .ok d) := by
  induction chunks with
  | nil =>
      intro st _ _
      rw [stateAfter_writeChunks]
      rfl
  | cons c chunks ih =>
      intro st ha hknown
      have hrest := ih (@addressed_writeChunk _ _ _ c.1 c.2 ha)
        (by simp [chunkExists_writeChunk, hknown])
      rw [stateAfter_writeChunks] at hrest ⊢
      rw [List.foldl_cons, hrest, readChunk_writeChunk_of_exists ha hknown]

/-- A chunk that is written for the first time is read as it was written,
if its bytes have its hash. -/
theorem readChunk_writeChunks_of_new
    (load : ChunkHash → Bytes) (hashes : List ChunkHash) {h' : ChunkHash}
    (hmem : h' ∈ hashes) :
    ∀ {st : Store}, st.Addressed layout repoId → ¬ chunkExists st h' →
      (readChunk blake3 (stateAfter (writeChunks layout repoId
          (hashes.map fun h => (h, load h))) st) h' = .ok (load h') ↔
        blake3 (load h') = h') := by
  induction hashes with
  | nil =>
      simp at hmem
  | cons h hashes ih =>
      intro st ha hnew
      have ha' := @addressed_writeChunk _ _ _ h (load h) ha
      rw [stateAfter_writeChunks, List.map_cons, List.foldl_cons,
        ← stateAfter_writeChunks]
      by_cases hh : h' = h
      · subst hh
        rw [readChunk_writeChunks_of_exists _ ha'
          (by simp [chunkExists_writeChunk]), readChunk_eq_ok_iff_of_addressed ha',
          chunkExists_writeChunk, lookup_files_writeChunk]
        simp [hnew]
      · refine ih ((List.mem_cons.mp hmem).resolve_left hh) ha' ?_
        simpa [chunkExists_writeChunk, hh] using hnew

/-- Writing chunks leaves the entries of all others alone. -/
theorem lookup_writeChunks_of_not_mem
    {chunks : List (ChunkHash × Bytes)} {k : String}
    (hk : ∀ c ∈ chunks, k ≠ c.1.toHex) (st : Store) :
    (stateAfter (writeChunks layout repoId chunks) st).index.lookup k =
      st.index.lookup k := by
  rw [stateAfter_writeChunks]
  refine List.foldlRecOn chunks _
    (motive := fun st' : Store => st'.index.lookup k = st.index.lookup k)
    rfl ?_
  intro st' hst' c hc
  rw [lookup_writeChunk, if_neg (hk c hc), hst']

/-- Of a known entry, writing chunks changes at most the count. -/
theorem lookup_writeChunks_of_known {k : String}
    (chunks : List (ChunkHash × Bytes)) :
    ∀ {st : Store} {e : ChunkIndexEntry}, st.index.lookup k = some e →
      ∃ count, (stateAfter (writeChunks layout repoId chunks) st).index.lookup k =
        some { e with refCount := count } := by
  induction chunks with
  | nil =>
      intro st e he
      rw [stateAfter_writeChunks]
      exact ⟨e.refCount, he⟩
  | cons c chunks ih =>
      intro st e he
      rw [stateAfter_writeChunks, List.foldl_cons, ← stateAfter_writeChunks]
      by_cases hk : k = c.1.toHex
      · have hnext : (stateAfter (writeChunk layout repoId c.1 c.2)
            st).index.lookup k = some e.incremented := by
          rw [lookup_writeChunk, if_pos hk, he]
          rfl
        obtain ⟨count, hcount⟩ := ih hnext
        exact ⟨count, hcount⟩
      · refine ih ?_
        rw [lookup_writeChunk, if_neg hk, he]

/-- A chunk that is written keeps the file it has, or gets the one that belongs to
its hash. -/
theorem path_writeChunks {chunks : List (ChunkHash × Bytes)}
    (hmem : h ∈ chunks.map Prod.fst) (st : Store) :
    ∃ e, (stateAfter (writeChunks layout repoId chunks) st).index.lookup h.toHex =
        some e ∧
      e.path = ((st.index.lookup h.toHex).map ChunkIndexEntry.path).getD
        (layout.bucketPath repoId h) := by
  induction chunks generalizing st with
  | nil =>
      cases hmem
  | cons c chunks ih =>
      rw [stateAfter_writeChunks, List.foldl_cons, ← stateAfter_writeChunks]
      have hfirst : (stateAfter (writeChunk layout repoId c.1 c.2)
          st).index.lookup c.1.toHex =
            some (((st.index.lookup c.1.toHex).map .incremented).getD
              (newEntry layout repoId c.1 c.2)) := by
        rw [lookup_writeChunk, if_pos rfl]
      have hpath : (((st.index.lookup c.1.toHex).map .incremented).getD
          (newEntry layout repoId c.1 c.2)).path =
            ((st.index.lookup c.1.toHex).map ChunkIndexEntry.path).getD
              (layout.bucketPath repoId c.1) := by
        cases st.index.lookup c.1.toHex with
        | none =>
            rfl
        | some e =>
            rfl
      rcases List.mem_cons.mp hmem with rfl | hrest
      · obtain ⟨count, hcount⟩ := lookup_writeChunks_of_known chunks hfirst
        exact ⟨_, hcount, hpath⟩
      · obtain ⟨e, he, hkept⟩ := ih hrest (stateAfter (writeChunk layout repoId c.1 c.2) st)
        refine ⟨e, he, hkept.trans ?_⟩
        by_cases hh : h = c.1
        · subst hh
          rw [hfirst]
          exact hpath
        · rw [lookup_writeChunk, if_neg (fun heq => hh (ChunkHash.toHex_injective heq))]

theorem takesPath_eq_true_iff {p : String} {c : ChunkHash × Bytes} :
    takesPath layout repoId st p c = true ↔
      chunkExists st c.1 = false ∧ p = layout.bucketPath repoId c.1 := by
  simp [takesPath]

/-- A path is taken once: from then on its chunk is known. -/
theorem takesPath_writeChunk_of_takes {p : String} {c : ChunkHash × Bytes}
    (h : takesPath layout repoId st p c = true) (c' : ChunkHash × Bytes) :
    takesPath layout repoId (stateAfter (writeChunk layout repoId c.1 c.2) st) p c' =
      false := by
  rw [Bool.eq_false_iff, ne_eq, takesPath_eq_true_iff, chunkExists_writeChunk]
  rintro ⟨hnew, hp⟩
  have hhash : c'.1 = c.1 := layout.bucketPath_injective repoId
    (hp.symm.trans (takesPath_eq_true_iff.mp h).2)
  simp [hhash] at hnew

/-- Writing a chunk that does not take the path changes nothing for the path. -/
theorem takesPath_writeChunk_of_not {p : String} {c : ChunkHash × Bytes}
    (h : takesPath layout repoId st p c = false) :
    takesPath layout repoId (stateAfter (writeChunk layout repoId c.1 c.2) st) p =
      takesPath layout repoId st p := by
  funext c'
  by_cases hhash : c'.1 = c.1
  · have hbefore : takesPath layout repoId st p c' = false := by
      simpa [takesPath, hhash] using h
    rw [hbefore]
    simp [takesPath, chunkExists_writeChunk, hhash]
  · simp [takesPath, chunkExists_writeChunk, hhash]

theorem lookup_files_writeChunk_of_not {p : String} {c : ChunkHash × Bytes}
    (h : takesPath layout repoId st p c = false) :
    (stateAfter (writeChunk layout repoId c.1 c.2) st).files.lookup p =
      st.files.lookup p := by
  rw [lookup_files_writeChunk]
  split
  · rfl
  · next hnew =>
      have hp : p ≠ layout.bucketPath repoId c.1 := by
        simpa [takesPath, hnew] using h
      rw [if_neg hp]

/-- The file at a path after chunks were written is that of the first chunk that takes
it, or as before. -/
theorem lookup_files_writeChunks
    (chunks : List (ChunkHash × Bytes)) (p : String) (st : Store) :
    (stateAfter (writeChunks layout repoId chunks) st).files.lookup p =
      match chunks.find? (takesPath layout repoId st p) with
      | some c => some c.2
      | none => st.files.lookup p := by
  induction chunks generalizing st with
  | nil =>
      rw [stateAfter_writeChunks]
      rfl
  | cons c chunks ih =>
      rw [stateAfter_writeChunks, List.foldl_cons, ← stateAfter_writeChunks, ih,
        List.find?_cons]
      cases hhead : takesPath layout repoId st p c with
      | true =>
          obtain ⟨hnew, hp⟩ := takesPath_eq_true_iff.mp hhead
          have hlater : chunks.find? (takesPath layout repoId
              (stateAfter (writeChunk layout repoId c.1 c.2) st) p) = none :=
            List.find?_eq_none.mpr fun c' _ => by
              simp [takesPath_writeChunk_of_takes hhead]
          rw [hlater, lookup_files_writeChunk, hnew, if_neg Bool.false_ne_true, if_pos hp]
      | false =>
          rw [takesPath_writeChunk_of_not hhead, lookup_files_writeChunk_of_not hhead]

theorem addressed_writeChunks
    (chunks : List (ChunkHash × Bytes)) (ha : st.Addressed layout repoId) :
    (stateAfter (writeChunks layout repoId chunks) st).Addressed
      layout repoId := by
  rw [stateAfter_writeChunks]
  exact List.foldlRecOn chunks _ ha fun _ h _ _ => addressed_writeChunk h

/-- A chunk that is new keeps the data it is first written with. -/
theorem readChunk_writeChunks_of_first
    {earlier later : List (ChunkHash × Bytes)} {d : Bytes}
    (ha : st.Addressed layout repoId) (hnew : chunkExists st h = false)
    (hfirst : ∀ c ∈ earlier, c.1 ≠ h) :
    readChunk blake3 (stateAfter (writeChunks layout repoId
        (earlier ++ (h, data) :: later)) st) h = .ok d ↔
      d = data ∧ blake3 data = h := by
  have hnew' : chunkExists
      (stateAfter (writeChunks layout repoId earlier) st) h = false := by
    unfold chunkExists at hnew ⊢
    rw [lookup_writeChunks_of_not_mem _ st]
    · exact hnew
    · intro c hc heq
      exact hfirst c hc (ChunkHash.toHex_injective heq.symm)
  have ha' := @addressed_writeChunk _ _ _ h data
    (addressed_writeChunks earlier ha)
  rw [stateAfter_writeChunks, List.foldl_append, List.foldl_cons,
    ← stateAfter_writeChunks, ← stateAfter_writeChunks,
    readChunk_writeChunks_of_exists _ ha' (by simp [chunkExists_writeChunk]),
    readChunk_eq_ok_iff_of_addressed ha', chunkExists_writeChunk,
    lookup_files_writeChunk]
  simp only [hnew', decide_true, Bool.or_false, Bool.false_eq_true, if_false,
    if_true, Option.some.injEq, true_and]
  constructor
  · rintro ⟨rfl, hhash⟩
    exact ⟨rfl, hhash⟩
  · rintro ⟨rfl, hhash⟩
    exact ⟨rfl, hhash⟩

/-- What is read under a hash after some chunks were written: what the store
had there, or else what was first written. -/
def firstStored (blake3 : Bytes → ChunkHash) (st : Store)
    (chunks : List (ChunkHash × Bytes)) (h : ChunkHash) : Option Bytes :=
  if chunkExists st h then (readChunk blake3 st h).toOption
  else (chunks.find? fun c => c.1 = h).map Prod.snd

/-- Chunks that are written under their own hashes are read as they were first
stored. -/
theorem readChunk_writeChunks_iff {chunks : List (ChunkHash × Bytes)}
    (ha : st.Addressed layout repoId) (hhashed : ∀ c ∈ chunks, blake3 c.2 = c.1) :
    readChunk blake3 (stateAfter (writeChunks layout repoId chunks) st) h =
        .ok data ↔
      firstStored blake3 st chunks h = some data := by
  unfold firstStored
  split
  · next hknown =>
      rw [readChunk_writeChunks_of_exists _ ha hknown]
      cases readChunk blake3 st h with
      | ok d =>
          simp [Except.toOption]
      | error e =>
          simp [Except.toOption]
  · next hnew =>
      cases hfind : chunks.find? fun c => c.1 = h with
      | none =>
          have hother : ∀ c ∈ chunks, h.toHex ≠ c.1.toHex := by
            intro c hc heq
            obtain rfl := ChunkHash.toHex_injective heq
            simpa using List.find?_eq_none.mp hfind c hc
          rw [readChunk_eq_ok_iff, lookup_writeChunks_of_not_mem hother]
          simp only [Option.map_none, reduceCtorEq, iff_false]
          rintro ⟨e, he, -⟩
          exact hnew (by simp [chunkExists, he])
      | some c =>
          obtain ⟨hhash, earlier, later, rfl, hfirst⟩ :=
            List.find?_eq_some_iff_append.mp hfind
          obtain rfl : c.1 = h := of_decide_eq_true hhash
          have hc : blake3 c.2 = c.1 := hhashed c (by simp)
          rw [readChunk_writeChunks_of_first ha (by simpa using hnew)
            (by simpa using hfirst)]
          simp [hc, eq_comm]

/-- The files after chunks with one content for each hash were written: of those that
are new to the index each has its own. -/
theorem lookup_files_writeChunks_map
    (load : ChunkHash → Bytes) (hashes : List ChunkHash) (p : String) (st : Store) :
    (∀ h ∈ hashes, ¬ chunkExists st h → p = layout.bucketPath repoId h →
      (stateAfter (writeChunks layout repoId
        (hashes.map fun h => (h, load h))) st).files.lookup p = some (load h)) ∧
    ((∀ h ∈ hashes, ¬ chunkExists st h → p ≠ layout.bucketPath repoId h) →
      (stateAfter (writeChunks layout repoId
        (hashes.map fun h => (h, load h))) st).files.lookup p =
          st.files.lookup p) := by
  rw [lookup_files_writeChunks]
  cases hfind : (hashes.map fun h => (h, load h)).find?
      (takesPath layout repoId st p) with
  | none =>
      refine ⟨fun h hmem hnew hp => ?_, fun _ => rfl⟩
      have htakes : takesPath layout repoId st p (h, load h) = true := by
        rw [takesPath_eq_true_iff]
        exact ⟨by simpa using hnew, hp⟩
      exact absurd htakes
        (List.find?_eq_none.mp hfind (h, load h) (List.mem_map_of_mem hmem))
  | some c =>
      obtain ⟨h₁, hmem₁, rfl⟩ := List.mem_map.mp (List.mem_of_find?_eq_some hfind)
      obtain ⟨hnew₁, hp₁⟩ := takesPath_eq_true_iff.mp (List.find?_some hfind)
      refine ⟨fun h _ _ hp => ?_, fun hother => ?_⟩
      · have heq : h = h₁ := layout.bucketPath_injective repoId (hp.symm.trans hp₁)
        rw [heq]
      · exact absurd hp₁ (hother h₁ hmem₁ (by simpa using hnew₁))

theorem run_deleteChunkPhysical_unknown
    (he : st.index.lookup h.toHex = none) :
    (deleteChunkPhysical h).run st = .error (.notFound h.toHex) st := by
  simp [deleteChunkPhysical, he]

/-- Deleting removes the file and marks the entry as purged. -/
theorem run_deleteChunkPhysical_known
    (he : st.index.lookup h.toHex = some e) :
    (deleteChunkPhysical h).run st =
      .ok () ((st.removeFile e.path).onIndex
        fun index => index.register h.toHex (e.withStatus .purged)) := by
  have hpurge := BadouIndex.updateStatus_of_lookup he .purged
  simp only [deleteChunkPhysical, EStateM.run_bind, EStateM.run_get, he,
    EStateM.run_modify, Store.onIndex]
  exact run_liftIndex (s := st.removeFile e.path) hpurge

end Specs

end ChunkStore

inductive ChunkOpsError
  | store (e : ChunkStoreError)
  | referenced (chunkHash : String)
  | notFound (chunkHash : String)
deriving DecidableEq

def ChunkOpsError.message : ChunkOpsError → String
  | .store e => "chunk store error: " ++ e.message
  | .referenced chunkHash =>
      "chunk is referenced and cannot be deleted: " ++ chunkHash
  | .notFound chunkHash => "chunk not found: " ++ chunkHash

namespace ChunkOps

section Operations

variable (layout : BadouDataLayout) (repoId : RepositoryId)
variable (blake3 : Bytes → ChunkHash)

def putChunk (chunkHash : ChunkHash) (encryptedData : Bytes) :
    EStateM ChunkOpsError Store ChunkLocation :=
  EStateM.adaptExcept .store
    (ChunkStore.writeChunk layout repoId chunkHash encryptedData)

def getChunk (st : Store) (chunkHash : ChunkHash) :
    Except ChunkOpsError Bytes :=
  match ChunkStore.readChunk blake3 st chunkHash with
  | .ok data => .ok data
  | .error (.notFound h) => .error (.notFound h)
  | .error other => .error (.store other)

def chunkExists (st : Store) (chunkHash : ChunkHash) : Bool × UInt32 :=
  let count := ChunkStore.refCount st chunkHash
  (count > 0, count)

def deleteChunk (chunkHash : ChunkHash) :
    EStateM ChunkOpsError Store Unit := do
  let (_, refCount) := chunkExists (← get) chunkHash
  if refCount > 0 then
    throw (.referenced chunkHash.toHex)
  EStateM.adaptExcept .store (ChunkStore.deleteChunkPhysical chunkHash)

end Operations

/-- A referenced chunk is not deleted; any other is. -/
theorem stateAfter_deleteChunk (st : Store) (h : ChunkHash) :
    stateAfter (deleteChunk h) st =
      if ChunkStore.refCount st h > 0 then st
      else stateAfter (ChunkStore.deleteChunkPhysical h) st := by
  unfold deleteChunk
  rw [stateAfter_bind]
  change stateAfter (if ChunkStore.refCount st h > 0 then _ else _) st = _
  by_cases hcount : ChunkStore.refCount st h > 0
  · simp only [hcount, if_true]
    rfl
  · simp only [hcount, if_false]
    unfold stateAfter
    rw [EStateM.run_adaptExcept]
    cases (ChunkStore.deleteChunkPhysical h).run st with
    | ok a s =>
        rfl
    | error e s =>
        rfl

end ChunkOps

end Badou
end HyperBackup
