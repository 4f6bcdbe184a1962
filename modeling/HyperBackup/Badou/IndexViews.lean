import HyperBackup.Badou.ChunkStore
import HyperBackup.Badou.IndexFile

/-!
# The two indexes of an open repository

Opening a repository loads its index file twice: once for the chunk store and
once for the handle that the other requests use.  From then on neither index
sees what is updated through the other one, and each of them writes all it has
to the common file.

So the two agree exactly as long as nothing is updated: no chunk is written,
and every update through the handle finds the index as it wants it to be.
-/

namespace HyperBackup
namespace Badou

open Lib Lib.Program PersistedIndex

namespace PersistedIndex

section Idle

/-- The index after an operation; one that fails changes nothing. -/
def applied (data : PersistedIndex) (op : Op) : PersistedIndex :=
  match data.update op with
  | .ok data => data
  | .error _ => data

/-- The index is already as the operation would leave it, or does not have the
entry that the operation is about. -/
def Idle (data : PersistedIndex) : Op → Prop
  | .register chunkHash entry => data.lookup chunkHash = some entry
  | .incrementRefCount chunkHash => data.lookup chunkHash = none
  | .decrementRefCount chunkHash => ∀ entry,
      data.lookup chunkHash = some entry →
        entry.refCount = 0 ∧ entry.status = .gcPending
  | .updateStatus chunkHash status => ∀ entry,
      data.lookup chunkHash = some entry → entry.status = status
  | .registerVersionChunks versionId chunkHashes =>
      data.versionChunks.lookup versionId = some chunkHashes
  | .registerManifestHash manifestId hash =>
      data.manifestHashes.lookup manifestId = some hash
  | .markInconsistent => data.consistent = false
  | .markConsistent => data.consistent = true

variable {data data' : PersistedIndex}

/-- Being idle depends on the contents only. -/
theorem Idle.congr {op : Op} (h : data.Same data') (hidle : data.Idle op) :
    data'.Idle op := by
  cases op with
  | register chunkHash entry =>
      exact (h.chunkIndex chunkHash).symm.trans hidle
  | incrementRefCount chunkHash =>
      exact (h.chunkIndex chunkHash).symm.trans hidle
  | decrementRefCount chunkHash =>
      intro entry hentry
      exact hidle entry ((h.chunkIndex chunkHash).trans hentry)
  | updateStatus chunkHash status =>
      intro entry hentry
      exact hidle entry ((h.chunkIndex chunkHash).trans hentry)
  | registerVersionChunks versionId chunkHashes =>
      exact (h.versionChunks versionId).symm.trans hidle
  | registerManifestHash manifestId hash =>
      exact (h.manifestHashes manifestId).symm.trans hidle
  | markInconsistent =>
      exact h.consistent.symm.trans hidle
  | markConsistent =>
      exact h.consistent.symm.trans hidle

/-- Registering an entry changes nothing exactly if it is there. -/
theorem same_register_iff {chunkHash : String} {entry : ChunkIndexEntry} :
    Same { data with toBadouIndex := data.register chunkHash entry } data ↔
      data.lookup chunkHash = some entry := by
  constructor
  · intro h
    have hentry := h.chunkIndex chunkHash
    rw [BadouIndex.lookup_register, if_pos rfl] at hentry
    exact hentry.symm
  · intro h
    refine ⟨fun k => ?_, fun _ => rfl, fun _ => rfl, rfl⟩
    rw [BadouIndex.lookup_register]
    by_cases hk : k = chunkHash
    · rw [if_pos hk, hk, h]
    · rw [if_neg hk]

/-- The index after changing one entry, if there is one. -/
def modified (data : PersistedIndex) (chunkHash : String)
    (f : ChunkIndexEntry → ChunkIndexEntry) : PersistedIndex :=
  match data.lookup chunkHash with
  | none => data
  | some entry =>
      { data with toBadouIndex := data.register chunkHash (f entry) }

/-- Changing an entry changes nothing exactly if the entry stays as it is. -/
theorem same_modified_iff {chunkHash : String}
    {f : ChunkIndexEntry → ChunkIndexEntry} :
    Same (data.modified chunkHash f) data ↔
      ∀ entry, data.lookup chunkHash = some entry → f entry = entry := by
  unfold modified
  cases hentry : data.lookup chunkHash with
  | none =>
      simp [Same.refl]
  | some entry =>
      simp only [same_register_iff, hentry, Option.some.injEq]
      constructor
      · rintro h other rfl
        exact h.symm
      · intro h
        exact (h entry rfl).symm

theorem applied_incrementRefCount (data : PersistedIndex) (chunkHash : String) :
    data.applied (.incrementRefCount chunkHash) =
      data.modified chunkHash .incremented := by
  cases hentry : data.lookup chunkHash with
  | none =>
      simp [applied, update, modified, hentry, Except.map,
        BadouIndex.incrementRefCount_of_lookup_none]
  | some entry =>
      simp [applied, update, modified, hentry, Except.map,
        BadouIndex.incrementRefCount_of_lookup hentry]

theorem applied_decrementRefCount (data : PersistedIndex) (chunkHash : String) :
    data.applied (.decrementRefCount chunkHash) =
      data.modified chunkHash .decremented := by
  cases hentry : data.lookup chunkHash with
  | none =>
      simp [applied, update, modified, hentry, Except.map,
        BadouIndex.decrementRefCount_of_lookup_none]
  | some entry =>
      simp [applied, update, modified, hentry, Except.map,
        BadouIndex.decrementRefCount_of_lookup hentry]

theorem applied_updateStatus (data : PersistedIndex) (chunkHash : String)
    (status : ChunkIndexStatus) :
    data.applied (.updateStatus chunkHash status) =
      data.modified chunkHash (.withStatus status) := by
  cases hentry : data.lookup chunkHash with
  | none =>
      simp [applied, update, modified, hentry, Except.map, bind, Except.bind,
        BadouIndex.updateStatus, BadouIndex.modifyEntry]
  | some entry =>
      simp [applied, update, modified, hentry, Except.map,
        BadouIndex.updateStatus_of_lookup hentry]

theorem incremented_ne (entry : ChunkIndexEntry) : entry.incremented ≠ entry := by
  intro h
  have hcount := congrArg ChunkIndexEntry.refCount h
  simp [ChunkIndexEntry.incremented] at hcount

theorem decremented_eq_iff (entry : ChunkIndexEntry) :
    entry.decremented = entry ↔
      entry.refCount = 0 ∧ entry.status = .gcPending := by
  constructor
  · intro h
    have hcount := ChunkIndexEntry.toNat_refCount_decremented entry
    have hstatus := ChunkIndexEntry.status_decremented entry
    rw [h] at hcount hstatus
    have hzero : entry.refCount.toNat = 0 := by omega
    rw [if_pos (by omega)] at hstatus
    exact ⟨UInt32.toNat_inj.mp hzero, hstatus⟩
  · rintro ⟨hzero, hstatus⟩
    cases entry
    cases hzero
    cases hstatus
    rfl

theorem withStatus_eq_iff (entry : ChunkIndexEntry) (status : ChunkIndexStatus) :
    entry.withStatus status = entry ↔ entry.status = status := by
  constructor
  · intro h
    rw [← h]
    rfl
  · rintro rfl
    rfl

/-- Inserting a value changes no lookup exactly if the value is there. -/
theorem lookup_insert_eq_iff {κ β : Type} [DecidableEq κ] {m : HashMap κ β}
    {k : κ} {b : β} :
    (∀ k', (m.insert k b).lookup k' = m.lookup k') ↔ m.lookup k = some b := by
  constructor
  · intro h
    have hk := h k
    rw [AList.lookup_insert] at hk
    exact hk.symm
  · intro h k'
    rw [HashMap.lookup_insert_of]
    by_cases hk : k' = k
    · rw [if_pos hk, hk, h]
    · rw [if_neg hk]

/-- An operation leaves the contents as they are exactly if it is idle. -/
theorem same_applied_iff (data : PersistedIndex) (op : Op) :
    (data.applied op).Same data ↔ data.Idle op := by
  cases op with
  | register chunkHash entry =>
      exact same_register_iff
  | incrementRefCount chunkHash =>
      rw [applied_incrementRefCount, same_modified_iff]
      simp only [incremented_ne, imp_false, Idle, Option.eq_none_iff_forall_ne_some,
        ne_eq]
  | decrementRefCount chunkHash =>
      rw [applied_decrementRefCount, same_modified_iff]
      simp only [decremented_eq_iff, Idle]
  | updateStatus chunkHash status =>
      rw [applied_updateStatus, same_modified_iff]
      simp only [withStatus_eq_iff, Idle]
  | registerVersionChunks versionId chunkHashes =>
      rw [Idle, ← lookup_insert_eq_iff]
      exact ⟨fun h => h.versionChunks, fun h => ⟨fun _ => rfl, h, fun _ => rfl, rfl⟩⟩
  | registerManifestHash manifestId hash =>
      rw [Idle, ← lookup_insert_eq_iff]
      exact ⟨fun h => h.manifestHashes, fun h => ⟨fun _ => rfl, fun _ => rfl, h, rfl⟩⟩
  | markInconsistent =>
      exact ⟨fun h => h.consistent.symm,
        fun h => ⟨fun _ => rfl, fun _ => rfl, fun _ => rfl, Eq.symm h⟩⟩
  | markConsistent =>
      exact ⟨fun h => h.consistent.symm,
        fun h => ⟨fun _ => rfl, fun _ => rfl, fun _ => rfl, Eq.symm h⟩⟩

end Idle

end PersistedIndex

/-- The open handles of a repository, with the index file and the chunk files. -/
structure IndexViews where
  chunkStore : PersistedIndex
  index : PersistedIndex
  file : Option Bytes
  chunks : HashMap String Bytes

namespace IndexViews

section Model

variable (json : IndexJson) (layout : BadouDataLayout) (repoId : RepositoryId)

/-- The handles in the cache, or else new ones, for which the index file is
read twice. -/
def openRepo (cached : Option IndexViews) (file : Option Bytes)
    (chunks : HashMap String Bytes) : Except IndexOpenError IndexViews :=
  match cached with
  | some views => .ok views
  | none => do
      let chunkStore ← IndexFile.openIndex json file
      let index ← IndexFile.openIndex json file
      return {
        chunkStore := chunkStore
        index := index
        file := file
        chunks := chunks }

/-- The index after writing a chunk. -/
def written (data : PersistedIndex) (chunks : HashMap String Bytes)
    (chunkHash : ChunkHash) (encryptedData : Bytes) : PersistedIndex :=
  { data with
    toBadouIndex := (stateAfter
      (ChunkStore.writeChunk layout repoId chunkHash encryptedData)
      { index := data.toBadouIndex, files := chunks }).index }

/-- Requests that open the repository, write a chunk through the chunk store,
or update the index through the handle. -/
inductive Event
  | openRepo
  | writeChunk (chunkHash : ChunkHash) (encryptedData : Bytes)
  | update (op : Op)
deriving DecidableEq

/-- A request on the open handles.  Every update writes the index it is made to
over the file. -/
def step (views : IndexViews) : Event → IndexViews
  | .openRepo =>
      match openRepo json (some views) views.file views.chunks with
      | .ok views => views
      | .error _ => views
  | .writeChunk chunkHash encryptedData =>
      let data := written layout repoId views.chunkStore views.chunks chunkHash
        encryptedData
      { views with
        chunkStore := data
        file := some (json.toVec data)
        chunks := (stateAfter
          (ChunkStore.writeChunk layout repoId chunkHash encryptedData)
          { index := views.chunkStore.toBadouIndex
            files := views.chunks }).files }
  | .update op =>
      match views.index.update op with
      | .error _ => views
      | .ok data =>
          { views with index := data, file := some (json.toVec data) }

def run (views : IndexViews) (events : List Event) : IndexViews :=
  events.foldl (step json layout repoId) views

/-- A request on a single index. -/
def applyTo (data : PersistedIndex) : Event → PersistedIndex
  | .openRepo => data
  | .writeChunk chunkHash encryptedData =>
      written layout repoId data ∅ chunkHash encryptedData
  | .update op => data.applied op

/-- The two indexes hold the same, and the file holds all updates that were
made through either of them. -/
structure InStep (start : IndexViews) (events : List Event) : Prop where
  agree : (run json layout repoId start events).chunkStore.Same
    (run json layout repoId start events).index
  kept : ∃ read,
    IndexFile.openIndex json (run json layout repoId start events).file =
        .ok read ∧
      read.Same (events.foldl (applyTo layout repoId) start.index)

/-- A request that updates nothing. -/
def IdleEvent (views : IndexViews) : Event → Prop
  | .openRepo => True
  | .writeChunk _ _ => False
  | .update op => views.index.Idle op

end Model

section Results

variable {json : IndexJson} {layout : BadouDataLayout} {repoId : RepositoryId}
variable {views start : IndexViews} {events : List Event}

theorem run_concat (events : List Event) (event : Event) :
    run json layout repoId start (events ++ [event]) =
      step json layout repoId (run json layout repoId start events) event :=
  List.foldl_concat ..

/-- The entry of a chunk that was written. -/
theorem lookup_written (data : PersistedIndex) (chunks : HashMap String Bytes)
    (h : ChunkHash) (encryptedData : Bytes) :
    (written layout repoId data chunks h encryptedData).lookup h.toHex =
      some (((data.lookup h.toHex).map .incremented).getD
        (ChunkStore.newEntry layout repoId h encryptedData)) := by
  have hwritten : (stateAfter (ChunkStore.writeChunk layout repoId h encryptedData)
      { index := data.toBadouIndex, files := chunks }).index.lookup h.toHex = _ :=
    ChunkStore.lookup_writeChunk h.toHex
  rw [if_pos rfl] at hwritten
  exact hwritten

/-- Writing a chunk always changes the index. -/
theorem written_not_same (data : PersistedIndex) (chunks : HashMap String Bytes)
    (h : ChunkHash) (encryptedData : Bytes) :
    ¬ (written layout repoId data chunks h encryptedData).Same data := by
  intro hsame
  have hentry := hsame.chunkIndex h.toHex
  rw [lookup_written] at hentry
  cases hlookup : data.lookup h.toHex with
  | none =>
      rw [hlookup] at hentry
      cases hentry
  | some entry =>
      rw [hlookup] at hentry
      exact incremented_ne entry (Option.some.inj hentry)

@[simp] theorem index_step_update (op : Op) :
    (step json layout repoId views (.update op)).index =
      views.index.applied op := by
  simp only [step, applied]
  cases views.index.update op with
  | error e =>
      rfl
  | ok data =>
      rfl

@[simp] theorem chunkStore_step_update (op : Op) :
    (step json layout repoId views (.update op)).chunkStore =
      views.chunkStore := by
  simp only [step]
  cases views.index.update op with
  | error e =>
      rfl
  | ok data =>
      rfl

/-- An update leaves the file or writes the index to it. -/
theorem file_step_update (op : Op) :
    (step json layout repoId views (.update op)).file = views.file ∨
      (step json layout repoId views (.update op)).file =
        some (json.toVec (views.index.applied op)) := by
  simp only [step, applied]
  cases views.index.update op with
  | error e =>
      exact Or.inl rfl
  | ok data =>
      exact Or.inr rfl

/-- A request after which the indexes still agree updates nothing. -/
theorem idleEvent_of_agree {event : Event}
    (hbefore : views.chunkStore.Same views.index)
    (hafter : (step json layout repoId views event).chunkStore.Same
      (step json layout repoId views event).index) :
    IdleEvent views event := by
  cases event with
  | openRepo =>
      trivial
  | writeChunk chunkHash encryptedData =>
      exact written_not_same _ _ _ _ (Same.trans hafter hbefore.symm)
  | update op =>
      rw [index_step_update, chunkStore_step_update] at hafter
      exact (same_applied_iff _ _).mp (hafter.symm.trans hbefore)

/-- Both indexes, the file and the sum of all updates are as at the start. -/
structure Unchanged (json : IndexJson) (data : PersistedIndex)
    (views : IndexViews) (all : PersistedIndex) : Prop where
  chunkStore : views.chunkStore.Same data
  index : views.index.Same data
  file : ∃ read, IndexFile.openIndex json views.file = .ok read ∧ read.Same data
  all : all.Same data

/-- A request that updates nothing leaves everything as it is. -/
theorem unchanged_step {data all : PersistedIndex} {event : Event}
    (hread : ∀ other : PersistedIndex, other.Same data → json.RoundTrips other)
    (h : Unchanged json data views all) (hidle : IdleEvent views event) :
    Unchanged json data (step json layout repoId views event)
      (applyTo layout repoId all event) := by
  cases event with
  | openRepo =>
      exact h
  | writeChunk chunkHash encryptedData =>
      exact hidle.elim
  | update op =>
      have hindex : (views.index.applied op).Same data :=
        ((same_applied_iff _ _).mpr hidle).trans h.index
      have hall : (all.applied op).Same all :=
        (same_applied_iff _ _).mpr (hidle.congr (h.index.trans h.all.symm))
      refine ⟨?_, ?_, ?_, hall.trans h.all⟩
      · rw [chunkStore_step_update]
        exact h.chunkStore
      · rw [index_step_update]
        exact hindex
      · rcases file_step_update op with hfile | hfile
        · rw [hfile]
          exact h.file
        · obtain ⟨read, hopen, hsame⟩ :=
            IndexFile.openIndex_toVec (hread _ hindex)
          exact ⟨read, by rw [hfile, hopen], hsame.trans hindex⟩

/-- What a repository is right after it was opened. -/
theorem unchanged_openRepo {file : Option Bytes} {chunks : HashMap String Bytes}
    (hopen : openRepo json none file chunks = .ok start) :
    Unchanged json start.index start start.index := by
  simp only [openRepo, bind, Except.bind, pure, Except.pure] at hopen
  cases hfile : IndexFile.openIndex json file with
  | error e =>
      rw [hfile] at hopen
      cases hopen
  | ok data =>
      rw [hfile] at hopen
      cases hopen
      exact ⟨.refl _, .refl _, ⟨data, hfile, .refl _⟩, .refl _⟩

/-- The two indexes of an open repository hold the same in every state of a run,
and no update in the file is lost, exactly if no request of the run updates
anything: no chunk is written, and every update through the handle finds the
index as it would leave it. -/
theorem inStep_iff {file : Option Bytes} {chunks : HashMap String Bytes}
    (hopen : openRepo json none file chunks = .ok start)
    (hread : ∀ data : PersistedIndex, data.Same start.index →
      json.RoundTrips data)
    (events : List Event) :
    (∀ before, before <+: events → InStep json layout repoId start before) ↔
      ∀ before event after, events = before ++ event :: after →
        IdleEvent (run json layout repoId start before) event := by
  constructor
  · rintro h before event after rfl
    have hagree := (h before (List.prefix_append _ _)).agree
    have hnext := (h (before ++ [event]) ⟨after, by simp⟩).agree
    rw [run_concat] at hnext
    exact idleEvent_of_agree hagree hnext
  · intro h before hinit
    have hunchanged : Unchanged json start.index
        (run json layout repoId start before)
        (before.foldl (applyTo layout repoId) start.index) := by
      induction before using List.reverseRecOn with
      | nil =>
          exact unchanged_openRepo hopen
      | append_singleton before event ih =>
          obtain ⟨after, rfl⟩ := hinit
          rw [run_concat, List.foldl_concat]
          refine unchanged_step hread (ih ⟨event :: after, by simp⟩) ?_
          exact h before event after (by simp)
    obtain ⟨read, hfile, hsame⟩ := hunchanged.file
    exact ⟨hunchanged.chunkStore.trans hunchanged.index.symm,
      read, hfile, hsame.trans hunchanged.all.symm⟩

end Results

section Example

/-- A map in which nothing is found is empty. -/
theorem eq_empty_of_lookup {κ β : Type} [DecidableEq κ] {m : HashMap κ β}
    (h : ∀ k, m.lookup k = none) : m = ∅ := by
  have hentries : m.entries = [] := by
    refine List.eq_nil_iff_forall_not_mem.mpr ?_
    intro entry hentry
    have hlookup := AList.mem_lookup_iff.mpr hentry
    rw [h entry.1] at hlookup
    cases hlookup
  exact AList.ext hentries

theorem eq_emptyIndex_of_same {data : PersistedIndex} {consistent : Bool}
    (h : data.Same (IndexFile.emptyIndex consistent)) :
    data = IndexFile.emptyIndex consistent := by
  obtain ⟨⟨chunkIndex, versionChunks⟩, manifestHashes, flag⟩ := data
  cases h.consistent
  cases eq_empty_of_lookup (m := chunkIndex) h.chunkIndex
  cases eq_empty_of_lookup (m := versionChunks) h.versionChunks
  cases eq_empty_of_lookup (m := manifestHashes) h.manifestHashes
  rfl

/-- A repository that is opened for the first time. -/
def opened : IndexViews where
  chunkStore := .fresh
  index := .fresh
  file := none
  chunks := ∅

def exampleLayout : BadouDataLayout where
  dataRoot := "/var/lib/badou"

def exampleRepo : RepositoryId where
  uuid := 0x6f9619ff8b864d01b42d00cf4fc964ff

/-- Marking a consistent index as consistent does no harm. -/
theorem inStep_markConsistent :
    InStep IndexFile.emptyJson exampleLayout exampleRepo opened
      [.openRepo, .update .markConsistent] := by
  have hopen : openRepo IndexFile.emptyJson none none ∅ = .ok opened := rfl
  refine (inStep_iff hopen ?_
    [.openRepo, .update .markConsistent]).mpr ?_ _ (List.prefix_refl _)
  · intro data hdata
    have hempty : data = IndexFile.emptyIndex true := eq_emptyIndex_of_same hdata
    rw [hempty]
    exact IndexFile.roundTrips_emptyJson true
  · intro before event after hevents
    rcases before with _ | ⟨first, _ | ⟨second, before⟩⟩
    · cases hevents
      trivial
    · cases hevents
      rfl
    · simp at hevents

/-- A chunk written through the chunk store is not seen by the handle, and is
lost from the file by the next update through the handle. -/
theorem chunk_lost_by_handle :
    openRepo IndexFile.emptyJson none none ∅ = .ok opened ∧
      ¬ InStep IndexFile.emptyJson exampleLayout exampleRepo opened
        [.writeChunk .ofEmpty []] ∧
      ∀ json, (run json exampleLayout exampleRepo opened
        [.writeChunk .ofEmpty [], .update .markInconsistent]).file =
          some (json.toVec (IndexFile.emptyIndex false)) := by
  refine ⟨rfl, ?_, fun _ => rfl⟩
  intro hstep
  have hagree : (step IndexFile.emptyJson exampleLayout exampleRepo opened
      (.writeChunk .ofEmpty [])).chunkStore.Same (step IndexFile.emptyJson
        exampleLayout exampleRepo opened (.writeChunk .ofEmpty [])).index :=
    hstep.agree
  have hidle := idleEvent_of_agree (Same.refl PersistedIndex.fresh) hagree
  exact hidle

end Example

end IndexViews

end Badou
end HyperBackup
